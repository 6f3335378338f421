import Asgiref.CurrentThreadExecutor.Model

/-!
# No wake-up is lost

The work thread of an executor waits only where the callback `done` is still to come: it is registered before
the first wait, or was run at once, and `done` and `submit` notify under the lock.

* `Wakes` — what every step keeps about one executor;
* `wakes_step` — together with the two flags of the awaited future, which only go one way.
-/

namespace Asgiref.CurrentThreadExecutor

open Asgiref.Python Asgiref.Lib

/-- The work thread will be woken. -/
structure Wakes (x : Executor) : Prop where
  /-- Inside `run_until_future` the callback is registered, or has been run. -/
  callback : x.pc ≠ .notEntered → x.registered = true ∨ x.broken = true
  /-- A broken executor does not leave its thread waiting. -/
  notified : x.broken = true → x.pc ≠ .waiting false

/-- What a step leaves to an executor: it wakes, a future that is done stays so, and then no callback is
registered any more. -/
structure Keeps (x y : Executor) : Prop where
  wakes : Wakes y
  awaitedDone : x.awaitedDone = true → y.awaitedDone = true
  registered : x.awaitedDone = true → x.registered = false → y.registered = false

theorem Wakes.keeps {x : Executor} (h : Wakes x) : Keeps x x := ⟨h, id, fun _ => id⟩

/-- A step that moves the thread, and neither touches the flags nor starts a wait. -/
theorem Wakes.goto {x y : Executor} (h : Wakes x) (hpc : x.pc ≠ .notEntered) (hy : y.pc ≠ .waiting false)
    (hb : y.broken = x.broken) (hr : y.registered = x.registered) (ha : y.awaitedDone = x.awaitedDone) :
    Keeps x y where
  wakes := ⟨fun _ => by rw [hr, hb]; exact h.callback hpc, fun _ => hy⟩
  awaitedDone hx := by rw [ha]; exact hx
  registered _ hx := by rw [hr]; exact hx

theorem notify_flags (x : Executor) : x.notify.broken = x.broken ∧ x.notify.registered = x.registered ∧
    x.notify.awaitedDone = x.awaitedDone := by
  rw [notify_eq]
  exact ⟨rfl, rfl, rfl⟩

theorem notify_ne_waiting (x : Executor) : x.notify.pc ≠ .waiting false := by
  unfold Executor.notify
  split
  · exact nofun
  · exact ‹∀ b, x.pc = .waiting b → False› false

theorem notify_notEntered {x : Executor} (h : x.pc = .notEntered) : x.notify.pc = .notEntered := by
  rcases notify_pc x with hpc | ⟨b, hpc, -⟩
  · rw [hpc, h]
  · rw [h] at hpc
    cases hpc

theorem keeps_append {x : Executor} (h : Wakes x) (i : ItemId) : Keeps x (x.append i) := by
  unfold Executor.append
  obtain ⟨hb, hr, ha⟩ := notify_flags { x with workItems := x.workItems ++ [i], appended := x.appended ++ [i] }
  refine ⟨⟨fun hne => ?_, fun _ => notify_ne_waiting _⟩, fun hx => by rw [ha]; exact hx,
    fun _ hx => by rw [hr]; exact hx⟩
  rw [hb, hr]
  exact h.callback fun hx => hne (notify_notEntered hx)

theorem keeps_done {x : Executor} : Keeps x { x.done with registered := false } := by
  unfold Executor.done
  obtain ⟨hb, -, ha⟩ := notify_flags { x with broken := true }
  exact ⟨⟨fun _ => Or.inr hb, fun _ => notify_ne_waiting _⟩, fun hx => ha.trans hx, fun _ _ => rfl⟩

/-- A step on the executor `e`, seen from the executor `f`. -/
theorem keeps_setExec {s : State} {e f : ExecutorId} {x y z : Executor} (hw : Wakes y) (hx : s.execs e = some x)
    (hy : s.execs f = some y) (hz : Wakes x → Keeps x z) : ∃ y', (s.setExec e z).execs f = some y' ∧ Keeps y y' := by
  rw [State.execs_setExec]
  split
  · rename_i hfe
    subst hfe
    cases hx.symm.trans hy
    exact ⟨z, rfl, hz hw⟩
  · exact ⟨y, hy, hw.keeps⟩

/-- **The step lemma.** -/
theorem wakes_step {s s' : State} {a : Action} {f : ExecutorId} {y : Executor} (hstep : step s a = some s')
    (hy : s.execs f = some y) (hw : Wakes y) : ∃ y', s'.execs f = some y' ∧ Keeps y y' := by
  cases stepTo_of_step hstep with
  | @create e t old hnone =>
    rw [State.execs_setExec]
    split
    · rename_i hfe
      rw [hfe, hnone] at hy
      cases hy
    · exact ⟨y, hy, hw.keeps⟩
  | enterRefused => exact ⟨y, hy, hw.keeps⟩
  | enterDone hx =>
    exact keeps_setExec hw hx hy fun _ => ⟨⟨fun _ => Or.inr rfl, nofun⟩, id, fun _ => id⟩
  | enter hx _ ha =>
    refine keeps_setExec hw hx hy fun _ => ⟨⟨fun _ => Or.inl rfl, nofun⟩, id, fun h => ?_⟩
    rw [ha] at h
    cases h
  | resolve hx => exact keeps_setExec hw hx hy fun h => ⟨⟨h.callback, h.notified⟩, fun _ => rfl, fun _ => id⟩
  | done hx => exact keeps_setExec hw hx hy fun _ => keeps_done
  | loopReturn hx hpc =>
    exact keeps_setExec hw hx hy fun h => h.goto (by rcases hpc with hpc | hpc <;> rw [hpc] <;> nofun) nofun rfl rfl rfl
  | loopWait hx hpc _ hb =>
    refine keeps_setExec hw hx hy fun h => ⟨⟨fun _ => h.callback ?_, fun hb' => ?_⟩, id, fun _ => id⟩
    · rcases hpc with hpc | hpc <;> rw [hpc] <;> nofun
    · rw [hb] at hb'
      cases hb'
  | loopPop hx hpc =>
    exact keeps_setExec hw hx hy fun h => h.goto (by rcases hpc with hpc | hpc <;> rw [hpc] <;> nofun) nofun rfl rfl rfl
  | run hx hpc =>
    unfold runItem
    split
    · exact keeps_setExec hw hx hy fun h => h.goto (by rw [hpc]; nofun) nofun rfl rfl rfl
    · exact keeps_setExec hw hx hy fun h => h.goto (by rw [hpc]; nofun) nofun rfl rfl rfl
    · exact keeps_setExec hw hx hy fun h => h.goto (by rw [hpc]; nofun) nofun rfl rfl rfl
  | complete hx hpc =>
    unfold completeItem
    split
    · exact keeps_setExec hw hx hy fun h => h.goto (by rw [hpc]; nofun) nofun rfl rfl rfl
    · exact keeps_setExec hw hx hy fun h => h.goto (by rw [hpc]; nofun) nofun rfl rfl rfl
  | submitRefused => exact ⟨y, hy, hw.keeps⟩
  | submit => exact ⟨y, hy, hw.keeps⟩
  | walkRejected => exact ⟨y, hy, hw.keeps⟩
  | walkUp => exact ⟨y, hy, hw.keeps⟩
  | @walkAppend i _ _ _ _ _ hx => exact keeps_setExec hw hx hy fun h => keeps_append h i
  | cancel => exact ⟨y, hy, hw.keeps⟩

/-- After `resolve` the awaited future is done. -/
theorem awaitedDone_of_resolve {s s' : State} {e : ExecutorId} (h : step s (.resolve e) = some s') :
    ∃ x, s'.execs e = some x ∧ x.awaitedDone = true := by
  cases stepTo_of_step h with
  | resolve => exact ⟨_, by rw [State.execs_setExec, if_pos rfl], rfl⟩

/-- A new executor wakes: nothing waits in it. -/
theorem wakes_of_create {s s' : State} {e : ExecutorId} {t : ThreadId} {old : Option ExecutorId}
    (h : step s (.create e t old) = some s') : ∃ x, s'.execs e = some x ∧ Wakes x := by
  cases stepTo_of_step h with
  | create =>
    exact ⟨{ workThread := t, oldExecutor := old }, by rw [State.execs_setExec, if_pos rfl],
      ⟨fun h => absurd rfl h, nofun⟩⟩

/-- **No wake-up is lost.**  Once the awaited future is done and its callbacks have been run, the work thread is
not waiting without a notification. -/
theorem Wakes.not_waiting {x : Executor} (h : Wakes x) (hr : x.registered = false) : x.pc ≠ .waiting false := by
  intro hpc
  rcases h.callback (by rw [hpc]; nofun) with hreg | hb
  · rw [hr] at hreg
    cases hreg
  · exact h.notified hb hpc

end Asgiref.CurrentThreadExecutor
