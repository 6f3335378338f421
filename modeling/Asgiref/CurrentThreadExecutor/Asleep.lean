import Asgiref.CurrentThreadExecutor.Refinement

/-!
# The work thread sleeps only where there is nothing to do

* `IdleAsleep` — between the blocks, where no thread holds a lock: `idleAsleep_step`, `idleAsleep_run`;
* `asleep_idle` — line by line.
-/

namespace Asgiref.CurrentThreadExecutor

open Asgiref.Python Asgiref.Lib

/-- A work thread that waits and has not been notified has an empty queue, and is not broken. -/
def IdleAsleep (x : Executor) : Prop := x.pc = .waiting false → x.workItems = [] ∧ x.broken = false

theorem idleAsleep_of_ne {x : Executor} (h : x.pc ≠ .waiting false) : IdleAsleep x := fun hpc => absurd hpc h

theorem idleAsleep_setExec {s : State} (h : ∀ f z, s.execs f = some z → IdleAsleep z) {e : ExecutorId} {y : Executor}
    (hy : IdleAsleep y) (f : ExecutorId) (z : Executor) (hz : (s.setExec e y).execs f = some z) : IdleAsleep z := by
  rw [State.execs_setExec] at hz
  split at hz
  · cases hz
    exact hy
  · exact h f z hz

/-- The two writers of the queue and of the flag notify, and the loop looks at both before it waits. -/
theorem idleAsleep_step {s s' : State} {a : Action} (h : ∀ e x, s.execs e = some x → IdleAsleep x)
    (hstep : step s a = some s') : ∀ e x, s'.execs e = some x → IdleAsleep x := by
  cases stepTo_of_step hstep with
  | create => exact idleAsleep_setExec h (idleAsleep_of_ne nofun)
  | enterDone => exact idleAsleep_setExec h (idleAsleep_of_ne nofun)
  | enter => exact idleAsleep_setExec h (idleAsleep_of_ne nofun)
  | @resolve e x hx => exact idleAsleep_setExec h fun hpc => h e x hx hpc
  | @done e x => exact idleAsleep_setExec h (idleAsleep_of_ne (notify_ne_waiting { x with broken := true }))
  | loopReturn => exact idleAsleep_setExec h (idleAsleep_of_ne nofun)
  | loopWait _ _ hq hb => exact idleAsleep_setExec h fun _ => ⟨hq, hb⟩
  | loopPop => exact idleAsleep_setExec h (idleAsleep_of_ne (by nofun))
  | run =>
    unfold runItem
    split <;> exact idleAsleep_setExec h (idleAsleep_of_ne (by nofun))
  | complete =>
    unfold completeItem
    split <;> exact idleAsleep_setExec h (idleAsleep_of_ne (by nofun))
  | walkAppend => exact idleAsleep_setExec h (idleAsleep_of_ne (notify_ne_waiting _))
  | enterRefused | submitRefused | submit | walkRejected | walkUp | cancel => exact h

theorem idleAsleep_run {s : State} {as : List Action} (hrun : machine.run State.init as = some s) :
    ∀ e x, s.execs e = some x → IdleAsleep x :=
  machine.run_invariant (I := fun s => ∀ e x, s.execs e = some x → IdleAsleep x)
    (fun _ _ _ => idleAsleep_step) (by intro e x hx; cases hx) hrun

/-! ### Line by line -/

/-- The next line of the thread is `notify()`. -/
def Holder.notifies : Holder → Bool
  | .enter .notify | .done .notify | .submit _ .notify => true
  | _ => false

/-- A notification of the work thread of `e` is on its way: it has been sent and the thread does not yet have the
lock again, or the thread that holds the lock sends it with its next line. -/
def Locked.NotificationPending (s : Locked) (e : ExecutorId) (x : Executor) : Prop :=
  x.pc = .waiting true ∨ ∃ h, s.holder e = some h ∧ h.notifies = true

/-- The executor of a thread that waits is as between the blocks, if no notification is on its way. -/
theorem Consistent.finishBlock_waiting {s : Locked} (hc : Consistent s) {e : ExecutorId} {x : Executor}
    (hx : s.base.execs e = some x) (hpc : x.pc = .waiting false) (hn : ∀ h, s.holder e = some h → h.notifies = false) :
    x.finishBlock (s.holder e) = x := by
  cases hh : s.holder e with
  | none => rfl
  | some h =>
    have hf := hc.fits_of hx hh
    have hn := hn h hh
    cases h with
    | loop l =>
      rcases hf.1 with hl | hl <;> rw [hpc] at hl <;> cases hl
    | enter l =>
      rw [hf.1] at hpc
      cases hpc
    | done l => cases l <;> first | rfl | cases hn
    | submit i l => cases l <;> first | rfl | cases hn

/-- `notify()` wakes a thread that waits. -/
theorem line_notify {s : Locked} {e : ExecutorId} {x : Executor} (hx : s.base.execs e = some x)
    (hpc : ∃ b, x.pc = .waiting b) {h : Holder} (hh : s.holder e = some h) (hn : h.notifies = true) :
    ∃ s' y, s.step (.line e) = some s' ∧ s'.base.execs e = some y ∧ y.pc = .waiting true := by
  obtain ⟨b, hpc⟩ := hpc
  have hwake : x.notify.pc = .waiting true := by
    unfold Executor.notify
    rw [hpc]
  obtain ⟨oh, hline⟩ : ∃ oh, s.line e x h = some (s.put e x.notify oh) := by
    cases h with
    | loop l => cases hn
    | enter l => cases l <;> first | exact ⟨_, rfl⟩ | cases hn
    | done l => cases l <;> first | exact ⟨_, rfl⟩ | cases hn
    | submit i l => cases l <;> first | exact ⟨_, rfl⟩ | cases hn
  exact ⟨_, x.notify, (Locked.step_line hx hh).trans hline, by simp [Locked.put], hwake⟩

/-- **No wake-up is lost.**  Whatever the threads do line by line, a work thread inside `wait()` without a
notification on its way has an empty queue and is not broken; and a notification that is still to be sent reaches
it. -/
theorem asleep_idle {s : Locked} {ms : List Move} {e : ExecutorId} {x : Executor}
    (hrun : locked.run Locked.init ms = some s) (hx : s.base.execs e = some x) (hpc : ∃ b, x.pc = .waiting b) :
    (¬ s.NotificationPending e x → x.workItems = [] ∧ x.broken = false) ∧
      ∀ h, s.holder e = some h → h.notifies = true →
        ∃ s' y, s.step (.line e) = some s' ∧ s'.base.execs e = some y ∧ y.pc = .waiting true := by
  refine ⟨fun hn => ?_, fun h hh hn => line_notify hx hpc hh hn⟩
  obtain ⟨hc, hblocks⟩ := run_atomic hrun
  have hpc : x.pc = .waiting false := by
    obtain ⟨b, hpc⟩ := hpc
    cases b with
    | false => exact hpc
    | true => exact absurd (Or.inl hpc) hn
  have hfinish := hc.finishBlock_waiting hx hpc fun h hh => by
    cases hb : h.notifies with
    | false => rfl
    | true => exact absurd (Or.inr ⟨h, hh, hb⟩) hn
  have hx' := s.atomic_execs hx
  rw [hfinish] at hx'
  exact idleAsleep_run hblocks e x hx' hpc

/-- Thread 1 waits in `run_until_future`, thread 2 submits an item, thread 1 runs it and waits again. -/
def waitRunWait : List Move :=
  [.free (.create 0 1 none), .enter 0 1, .lock 0, .line 0, .line 0, .line 0,
    .free (.submit 0 2 0), .take 0, .line 0, .line 0, .line 0, .line 0,
    .lock 0, .line 0, .line 0, .line 0, .line 0, .free (.run 0), .free (.complete 0 (.ok ())),
    .lock 0, .line 0, .line 0, .line 0]

theorem asleep_idle_waitRunWait : ∃ (s : Locked) (x : Executor), locked.run Locked.init waitRunWait = some s ∧
    s.base.execs 0 = some x ∧ x.taken = [0] ∧ x.pc = .waiting false ∧ x.workItems = [] ∧ x.broken = false := by
  refine ⟨_, _, rfl, rfl, rfl, rfl, ?_⟩
  refine (@asleep_idle _ waitRunWait 0 _ rfl rfl ⟨false, rfl⟩).1 ?_
  rintro (h | ⟨h, hh, -⟩)
  · cases h
  · cases hh

end Asgiref.CurrentThreadExecutor
