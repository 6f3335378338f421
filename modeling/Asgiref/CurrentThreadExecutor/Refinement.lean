import Asgiref.CurrentThreadExecutor.Invariant
import Asgiref.CurrentThreadExecutor.Locks
import Asgiref.CurrentThreadExecutor.Wakeup
import Asgiref.Lib.Simulation

/-!
# A block of `_work_ready` is one action

The machine that executes the blocks line by line refines the one that executes each block at once.

* `Locked.atomic` — every block that has taken effect is carried out to its end, every other one is not begun;
* `Consistent` — what the holder of a lock has found out is still so;
* `Locked.visible` — the line at which a block takes effect: the `append` of `submit`, or its way out of a
  broken executor; the assignment in `done`; the `wait()`, the `break` and the `popleft` of the loop;
* `exists_line` — a thread inside a block can always go on;
* `simulates_machine`, `run_atomic` — the simulation, and the runs it gives.
-/

namespace Asgiref.CurrentThreadExecutor

open Asgiref.Python Asgiref.Lib

/-! ### The state between the blocks -/

/-- The executor at the end of the block that the holder of its lock is in, if the block has taken effect, and
at its beginning if not. -/
def Executor.finishBlock (x : Executor) : Option Holder → Executor
  | some (.loop (.leave i)) => { x with pc := .popped i }
  | some (.enter .notify) | some (.enter .leave) => { x with pc := .locking }
  | some (.done .notify) | some (.submit _ .notify) => x.notify
  | _ => x

/-- The state in which no thread is inside a block. -/
def Locked.atomic (s : Locked) : State :=
  ⟨fun e => (s.base.execs e).map fun x => x.finishBlock (s.holder e), s.base.items⟩

namespace Locked

variable (s : Locked)

theorem atomic_execs {e : ExecutorId} {x : Executor} (hx : s.base.execs e = some x) :
    s.atomic.execs e = some (x.finishBlock (s.holder e)) := by
  simp only [atomic, hx, Option.map_some]

theorem isSome_atomic (e : ExecutorId) : (s.atomic.execs e).isSome = (s.base.execs e).isSome :=
  Option.isSome_map

theorem isNone_atomic (e : ExecutorId) : (s.atomic.execs e).isNone = (s.base.execs e).isNone :=
  Option.isNone_map

theorem atomic_execs_of_eq {s : Locked} {e : ExecutorId} {x : Executor} (hx : s.base.execs e = some x)
    (h : x.finishBlock (s.holder e) = x) : s.atomic.execs e = some x := by
  rw [s.atomic_execs hx, h]

@[simp] theorem atomic_setItem (i : ItemId) (it : WorkItem) :
    (s.setItem i it).atomic = s.atomic.setItem i it := rfl

@[simp] theorem atomic_put (e : ExecutorId) (x : Executor) (h : Option Holder) :
    (s.put e x h).atomic = s.atomic.setExec e (x.finishBlock h) := by
  have hexecs : (s.put e x h).atomic.execs = (s.atomic.setExec e (x.finishBlock h)).execs := by
    funext f
    rw [State.execs_setExec]
    by_cases hf : f = e
    · subst hf
      simp [atomic, put]
    · simp [atomic, put, hf]
  exact congrArg (State.mk · s.base.items) hexecs

@[simp] theorem holder_put (e f : ExecutorId) (x : Executor) (h : Option Holder) :
    (s.put e x h).holder f = if f = e then h else s.holder f := by
  simp only [put, Function.update_apply]

/-- A step that takes no lock and changes an executor. -/
theorem put_holder (e : ExecutorId) (x : Executor) : s.put e x (s.holder e) = ⟨s.base.setExec e x, s.holder⟩ := by
  simp only [put, Function.update_eq_self]

end Locked

theorem State.setExec_self {s : State} {e : ExecutorId} {x : Executor} (hx : s.execs e = some x) :
    s.setExec e x = s := by
  simp only [State.setExec, ← hx, Function.update_eq_self]

/-! ### What the holder of a lock knows -/

/-- What the loop has found out before the line `l`. -/
def LoopLine.Fits (x : Executor) : LoopLine → Prop
  | .testItems | .leave _ => True
  | .testBroken => x.workItems = []
  | .wait => x.workItems = [] ∧ x.broken = false
  | .check => x.workItems = [] → x.broken = true
  | .quit => x.workItems = [] ∧ x.broken = true
  | .pop => x.workItems ≠ []

/-- What holds of an executor whose lock is with the holder. -/
def Holder.Fits (x : Executor) : Holder → Prop
  | .loop l => (x.pc = .locking ∨ x.pc = .waiting true) ∧ l.Fits x
  | .enter _ => x.pc = .notEntered ∧ x.awaitedDone = true
  | .done l => l = .set → x.awaitedDone = true ∧ x.registered = true
  | .submit _ l => (l = .append → x.broken = false) ∧ (l = .next → x.broken = true)

/-- The item that the holder still carries in its hands. -/
def Holder.carries : Holder → Option ItemId
  | .submit i .test | .submit i .append | .submit i .next => some i
  | _ => none

/-- The work thread is inside the block. -/
def Holder.isWorkThread : Holder → Bool
  | .loop _ | .enter _ => true
  | _ => false

theorem Holder.fits_done {x : Executor} {l : DoneLine} (h : l ≠ .set) : (Holder.done l).Fits x :=
  fun hl => absurd hl h

theorem Holder.fits_submit {x : Executor} {i : ItemId} {l : SubmitLine} (h : l ≠ .append) (h' : l ≠ .next) :
    (Holder.submit i l).Fits x :=
  ⟨fun hl => absurd hl h, fun hl => absurd hl h'⟩

theorem Holder.fits_append {x : Executor} {i : ItemId} (hb : x.broken = false) : (Holder.submit i .append).Fits x :=
  ⟨fun _ => hb, nofun⟩

theorem Holder.fits_next {x : Executor} {i : ItemId} (hb : x.broken = true) : (Holder.submit i .next).Fits x :=
  ⟨nofun, fun _ => hb⟩

structure Consistent (s : Locked) : Prop where
  /-- The lock of an executor is held by a thread that knows it. -/
  fits : ∀ e h, s.holder e = some h → ∃ x, s.base.execs e = some x ∧ h.Fits x
  /-- A submitter that holds the lock of `e` and has not yet got rid of its item stands in front of `e`. -/
  carried : ∀ e h i, s.holder e = some h → h.carries = some i → s.base.placeOf i = some (.walking e)

theorem consistent_init : Consistent Locked.init := ⟨nofun, nofun⟩

namespace Consistent

variable {s : Locked}

/-- A line, or a step that takes or leaves the lock of `e`. -/
theorem put (hc : Consistent s) {e : ExecutorId} {x : Executor} {oh : Option Holder}
    (hfits : ∀ h, oh = some h → h.Fits x)
    (hcarried : ∀ h i, oh = some h → h.carries = some i → s.base.placeOf i = some (.walking e)) :
    Consistent (s.put e x oh) where
  fits f h hh := by
    rw [Locked.holder_put] at hh
    simp only [Locked.put, State.execs_setExec]
    split at hh
    · rename_i hfe
      rw [if_pos hfe]
      exact ⟨x, rfl, hfits h hh⟩
    · rename_i hfe
      rw [if_neg hfe]
      exact hc.fits f h hh
  carried f h i hh hi := by
    rw [Locked.holder_put] at hh
    simp only [Locked.put, State.placeOf_setExec]
    split at hh
    · rename_i hfe
      rw [hfe]
      exact hcarried h i hh hi
    · exact hc.carried f h i hh hi

/-- The lock of `e` is with `h`, which may carry an item. -/
theorem holdItem (hc : Consistent s) {e : ExecutorId} {x : Executor} {h : Holder} (hf : h.Fits x)
    (hi : ∀ i, h.carries = some i → s.base.placeOf i = some (.walking e)) : Consistent (s.put e x (some h)) :=
  hc.put (by rintro _ ⟨⟩; exact hf) (by rintro _ i ⟨⟩; exact hi i)

/-- The lock of `e` is with `h`, which carries no item. -/
theorem hold (hc : Consistent s) {e : ExecutorId} {x : Executor} {h : Holder} (hf : h.Fits x)
    (hi : h.carries = none) : Consistent (s.put e x (some h)) :=
  hc.holdItem hf fun i h' => by rw [hi] at h'; cases h'

/-- The lock of `e` is free. -/
theorem release (hc : Consistent s) (e : ExecutorId) (x : Executor) : Consistent (s.put e x none) :=
  hc.put nofun nofun

theorem fits_of (hc : Consistent s) {e : ExecutorId} {x : Executor} {h : Holder} (hx : s.base.execs e = some x)
    (hh : s.holder e = some h) : h.Fits x := by
  obtain ⟨y, hy, hf⟩ := hc.fits e h hh
  cases hx.symm.trans hy
  exact hf

/-- An item that no holder carries moves. -/
theorem setItem (hc : Consistent s) {i : ItemId} {it : WorkItem}
    (h : ∀ e h, s.holder e = some h → h.carries = some i → it.place = .walking e) : Consistent (s.setItem i it) where
  fits := hc.fits
  carried e k j hk hj := by
    simp only [Locked.setItem, State.placeOf_setItem]
    split
    · rename_i hji
      rw [hji] at hj
      rw [h e k hk hj]
    · exact hc.carried e k j hk hj

/-- The submitter in front of `e` gives its item away: while it carries the item, no other holder does. -/
theorem handOver (hc : Consistent s) {e : ExecutorId} {x : Executor} {oh : Option Holder} {i : ItemId}
    (hfits : ∀ h, oh = some h → h.Fits x ∧ h.carries = none) (hp : s.base.placeOf i = some (.walking e))
    (it : WorkItem) : Consistent ((s.put e x oh).setItem i it) := by
  have hnone : ∀ h j, oh = some h → h.carries ≠ some j := fun h j hh hj => by
    rw [(hfits h hh).2] at hj
    cases hj
  refine (hc.put (fun h hh => (hfits h hh).1) fun h j hh hj => absurd hj (hnone h j hh)).setItem fun f h hf hj => ?_
  rw [Locked.holder_put] at hf
  split at hf
  · exact absurd hj (hnone h i hf)
  · rename_i hfe
    have hother := hc.carried f h i hf hj
    rw [hp] at hother
    cases hother
    exact absurd rfl hfe

end Consistent

/-! ### Steps outside the blocks -/

theorem notify_eq_self {x : Executor} (h : ∀ b, x.pc ≠ .waiting b) : x.notify = x := by
  unfold Executor.notify
  split
  · exact absurd ‹_› (h _)
  · rfl

/-! The order of the notification and a change of the flags does not matter. -/

theorem notify_resolve (x : Executor) :
    Executor.notify { x with awaitedDone := true } = { x.notify with awaitedDone := true } := by
  obtain ⟨_, _, _, _, pc⟩ := x
  cases pc <;> rfl

theorem notify_done (x : Executor) :
    Executor.notify { x with broken := true, registered := false } = { x.done with registered := false } := by
  obtain ⟨_, _, _, _, pc⟩ := x
  cases pc <;> rfl

/-- Where the work thread is neither inside a block nor waiting, no block has anything left to do to the
executor. -/
theorem finishBlock_outside {x : Executor} {oh : Option Holder} (hw : ∀ h, oh = some h → h.isWorkThread = false)
    (hpc : ∀ b, x.pc ≠ .waiting b) : x.finishBlock oh = x := by
  unfold Executor.finishBlock
  split
  · exact absurd (hw _ rfl) nofun
  · exact absurd (hw _ rfl) nofun
  · exact absurd (hw _ rfl) nofun
  · exact notify_eq_self hpc
  · exact notify_eq_self hpc
  · rfl

theorem Holder.Fits.isWorkThread {x : Executor} {h : Holder} {i : ItemId} (hf : h.Fits x)
    (hpc : x.pc.item? = some i) : h.isWorkThread = false := by
  cases h with
  | loop l =>
    rw [item?_of_lockable hf.1] at hpc
    cases hpc
  | enter l =>
    rw [hf.1] at hpc
    cases hpc
  | done l => rfl
  | submit j l => rfl

/-- What a thread other than the work thread knows is about the flags. -/
theorem Holder.Fits.flags {x y : Executor} {h : Holder} (hf : h.Fits x) (hw : h.isWorkThread = false)
    (ha : x.awaitedDone = true → y.awaitedDone = true) (hr : x.registered = true → y.registered = true)
    (hb : y.broken = x.broken) : h.Fits y := by
  cases h with
  | loop l => cases hw
  | enter l => cases hw
  | done l => exact fun hl => ⟨ha (hf hl).1, hr (hf hl).2⟩
  | submit j l =>
    simp only [Holder.Fits, hb]
    exact hf

section Free

variable {s : Locked}

/-- While the work thread runs an item it is not inside the block. -/
theorem Consistent.outside (hc : Consistent s) {e : ExecutorId} {x : Executor} {i : ItemId}
    (hx : s.base.execs e = some x) (hpc : x.pc.item? = some i) (h : Holder) (hh : s.holder e = some h) :
    h.Fits x ∧ h.isWorkThread = false :=
  ⟨hc.fits_of hx hh, (hc.fits_of hx hh).isWorkThread hpc⟩

theorem atomic_execs_of_item (hc : Consistent s) {e : ExecutorId} {x : Executor} {i : ItemId}
    (hx : s.base.execs e = some x) (hpc : x.pc.item? = some i) : s.atomic.execs e = some x := by
  refine Locked.atomic_execs_of_eq hx (finishBlock_outside (fun h hh => (hc.outside hx hpc h hh).2) fun b hb => ?_)
  rw [hb] at hpc
  cases hpc

/-- The work thread goes on outside the block. -/
theorem free_goto (hc : Consistent s) {e : ExecutorId} {x : Executor} {i : ItemId} (hx : s.base.execs e = some x)
    (hpc : x.pc.item? = some i) {pc : LoopPc} (hw : ∀ b, pc ≠ .waiting b) :
    Consistent ⟨s.base.setExec e { x with pc := pc }, s.holder⟩ ∧
      Locked.atomic ⟨s.base.setExec e { x with pc := pc }, s.holder⟩ = s.atomic.setExec e { x with pc := pc } := by
  have hout := hc.outside hx hpc
  rw [← s.put_holder, Locked.atomic_put, finishBlock_outside (fun h hh => (hout h hh).2) hw]
  refine ⟨hc.put (fun h hh => ?_) fun h j hh hj => hc.carried e h j hh hj, rfl⟩
  exact (hout h hh).1.flags (hout h hh).2 id id rfl

/-- An item in the hands of an executor is carried by no holder. -/
theorem Consistent.not_carries (hc : Consistent s) {i : ItemId} {p : Place} (hp : s.base.placeOf i = some p)
    (hne : ∀ e, p ≠ .walking e) {e : ExecutorId} {h : Holder} (hh : s.holder e = some h) : h.carries ≠ some i := by
  intro hi
  have := hc.carried e h i hh hi
  rw [hp] at this
  exact hne e (Option.some.inj this)

/-- The work thread goes on outside the block, and the item in its hands with it. -/
theorem free_gotoItem (hc : Consistent s) {e : ExecutorId} {x : Executor} {i : ItemId} {it : WorkItem}
    (hx : s.base.execs e = some x) (hpc : x.pc.item? = some i) (hit : s.base.items i = some it)
    (hne : ∀ f, it.place ≠ .walking f) {pc : LoopPc} (hw : ∀ b, pc ≠ .waiting b) (it' : WorkItem) :
    Consistent ⟨(s.base.setExec e { x with pc := pc }).setItem i it', s.holder⟩ ∧
      Locked.atomic ⟨(s.base.setExec e { x with pc := pc }).setItem i it', s.holder⟩ =
        (s.atomic.setExec e { x with pc := pc }).setItem i it' := by
  have hp : s.base.placeOf i = some it.place := State.placeOf_of_items hit
  obtain ⟨hc', hat⟩ := free_goto hc hx hpc hw
  refine ⟨hc'.setItem fun f h hh hi => absurd hi (hc.not_carries hp hne hh), ?_⟩
  rw [← hat]
  rfl

theorem free_runItem (hc : Consistent s) {e : ExecutorId} {x : Executor} {i : ItemId} {it : WorkItem}
    (hx : s.base.execs e = some x) (hpc : x.pc = .popped i) (hit : s.base.items i = some it)
    (hne : ∀ f, it.place ≠ .walking f) :
    Consistent ⟨runItem s.base e x i it, s.holder⟩ ∧
      Locked.atomic ⟨runItem s.base e x i it, s.holder⟩ = runItem s.atomic e x i it := by
  have hitem : x.pc.item? = some i := by rw [hpc]; rfl
  unfold runItem
  split
  · exact free_goto hc hx hitem (by nofun)
  · exact free_gotoItem hc hx hitem hit hne (by nofun) _
  · exact free_gotoItem hc hx hitem hit hne (by nofun) _

theorem free_completeItem (hc : Consistent s) {e : ExecutorId} {x : Executor} {i : ItemId} {it : WorkItem}
    (r : Result Unit) (hx : s.base.execs e = some x) (hpc : x.pc = .calling i) (hit : s.base.items i = some it)
    (hne : ∀ f, it.place ≠ .walking f) :
    Consistent ⟨completeItem s.base e x i it r, s.holder⟩ ∧
      Locked.atomic ⟨completeItem s.base e x i it r, s.holder⟩ = completeItem s.atomic e x i it r := by
  have hitem : x.pc.item? = some i := by rw [hpc]; rfl
  unfold completeItem
  split
  · exact free_goto hc hx hitem (by nofun)
  · exact free_gotoItem hc hx hitem hit hne (by nofun) _

/-- The future of the executor is resolved, whoever holds the lock. -/
theorem finishBlock_resolve (x : Executor) (oh : Option Holder) :
    Executor.finishBlock { x with awaitedDone := true } oh = { x.finishBlock oh with awaitedDone := true } := by
  unfold Executor.finishBlock
  split <;> first | rfl | exact notify_resolve x

theorem finishBlock_workThread (x : Executor) (oh : Option Holder) :
    (x.finishBlock oh).workThread = x.workThread := by
  unfold Executor.finishBlock
  split <;> first | rfl | rw [notify_eq]

/-- **The steps without a lock** are steps between the blocks. -/
theorem step_free (hc : Consistent s) (hi : Inv s.atomic) {a : Action} {b : State} (ha : a.lockFree = true)
    (hstep : step s.base a = some b) :
    Consistent ⟨b, s.holder⟩ ∧ step s.atomic a = some (Locked.atomic ⟨b, s.holder⟩) := by
  cases stepTo_of_step hstep with
  | @create e t old hnone hold =>
    have hfree : s.holder e = none := by
      cases hh : s.holder e with
      | none => rfl
      | some h =>
        obtain ⟨x, hx, -⟩ := hc.fits e h hh
        rw [hnone] at hx
        cases hx
    rw [← s.put_holder, Locked.atomic_put, hfree]
    refine ⟨hc.release e _, ?_⟩
    exact step_create (by rw [s.isNone_atomic, hnone]; rfl) fun o ho => (s.isSome_atomic o).trans (hold o ho)
  | @resolve e x hx =>
    rw [← s.put_holder, Locked.atomic_put, finishBlock_resolve]
    refine ⟨hc.put (fun h hh => ?_) fun h j hh hj => hc.carried e h j hh hj, ?_⟩
    · have hf := hc.fits_of hx hh
      cases h with
      | loop l => exact ⟨hf.1, by cases l <;> exact hf.2⟩
      | enter l => exact ⟨hf.1, rfl⟩
      | done l => exact fun hl => ⟨rfl, (hf hl).2⟩
      | submit j l => exact hf
    · exact step_resolve (s.atomic_execs hx)
  | @run e x i it hx hpc hit =>
    have hitem : x.pc.item? = some i := by rw [hpc]; rfl
    have hx' := atomic_execs_of_item hc hx hitem
    have hp := ((hi.exec e x hx').popped i).1 hpc
    have hplace : it.place = .popped e := State.place_eq hit hp
    obtain ⟨hc', hat⟩ := free_runItem hc hx hpc hit fun f hf => by rw [hplace] at hf; cases hf
    exact ⟨hc', by rw [hat, step_run hx' hpc hit]⟩
  | @complete e x i it r hx hpc hit =>
    have hitem : x.pc.item? = some i := by rw [hpc]; rfl
    have hx' := atomic_execs_of_item hc hx hitem
    have hp := ((hi.exec e x hx').calling i).1 hpc
    have hplace : it.place = .calling e := State.place_eq hit hp
    obtain ⟨hc', hat⟩ := free_completeItem hc _ hx hpc hit fun f hf => by rw [hplace] at hf; cases hf
    exact ⟨hc', by rw [hat, step_complete hx' hpc hit]⟩
  | @submitRefused i t e x hx ht =>
    have hnone : s.base.items i = none := items_of_submit hstep
    refine ⟨hc, ?_⟩
    rw [step_submit (s.atomic_execs hx) hnone, finishBlock_workThread, if_pos ht]
  | @submit i t e x hx hnone ht =>
    refine ⟨hc.setItem fun f h hh hj => ?_, ?_⟩
    · have hcarried := hc.carried f h i hh hj
      rw [State.placeOf, hnone] at hcarried
      cases hcarried
    · rw [step_submit (s.atomic_execs hx) hnone, finishBlock_workThread, if_neg ht]
      rfl
  | @cancel i it hit =>
    refine ⟨hc.setItem fun f h hh hj => ?_, step_cancel hit⟩
    exact @State.place_eq _ i it _ hit (hc.carried f h i hh hj)
  | _ => cases ha

end Free

/-! ### Lines -/

/-- The action that a line is, for those at which a block takes effect. -/
def Holder.commits (e : ExecutorId) (x : Executor) : Holder → Option Action
  | .loop .wait | .loop .quit | .loop .pop => some (.loop e)
  | .enter .set => some (.enter e x.workThread)
  | .done .set => some (.done e)
  | .submit i .append | .submit i .next => some (.walk i)
  | _ => none

/-- From `s` to `s'` the machine of the blocks takes the step `a`, or none. -/
def Matches (s s' : Locked) : Option Action → Prop
  | none => s'.atomic = s.atomic
  | some a => CurrentThreadExecutor.step s.atomic a = some s'.atomic

section Lines

variable {s s' : Locked} {e : ExecutorId} {x : Executor}

/-- A line before the block takes effect, or after it. -/
theorem matches_put (hx : s.base.execs e = some x) {y : Executor} {oh : Option Holder}
    (hsame : y.finishBlock oh = x.finishBlock (s.holder e)) : Matches s (s.put e y oh) none := by
  rw [Matches, Locked.atomic_put, hsame, State.setExec_self (s.atomic_execs hx)]

/-- The lines of the loop. -/
theorem matches_loopLine (hc : Consistent s) (hi : Inv s.atomic) (hx : s.base.execs e = some x) {l : LoopLine}
    (hh : s.holder e = some (.loop l)) (hpc : x.pc = .locking ∨ x.pc = .waiting true) (hf : l.Fits x)
    (hs : loopLine s e x l = some s') : Consistent s' ∧ Matches s s' ((Holder.loop l).commits e x) := by
  cases l with
  | testItems =>
    cases hs
    refine ⟨hc.hold ⟨hpc, ?_⟩ rfl, matches_put hx (by rw [hh]; split <;> rfl)⟩
    split
    · exact List.isEmpty_iff.1 ‹x.workItems.isEmpty = true›
    · exact fun hq => absurd (by rw [hq]; rfl) ‹¬ x.workItems.isEmpty = true›
  | testBroken =>
    cases hs
    refine ⟨hc.hold ⟨hpc, ?_⟩ rfl, matches_put hx (by rw [hh]; split <;> rfl)⟩
    split
    · exact fun _ => ‹x.broken = true›
    · exact ⟨hf, Bool.eq_false_iff.2 ‹¬ x.broken = true›⟩
  | wait =>
    cases hs
    have hx' := Locked.atomic_execs_of_eq hx (by rw [hh]; rfl)
    obtain ⟨hq, hb⟩ := hf
    refine ⟨hc.release e _, ?_⟩
    rw [Holder.commits, Matches, Locked.atomic_put]
    exact (step_loop hx' hpc).trans (loopBlock_wait hq hb)
  | check =>
    cases hs
    refine ⟨hc.hold ⟨hpc, ?_⟩ rfl, matches_put hx (by rw [hh]; split <;> rfl)⟩
    split
    · have hq : x.workItems = [] := List.isEmpty_iff.1 ‹x.workItems.isEmpty = true›
      exact ⟨hq, hf hq⟩
    · exact fun hq => absurd (by rw [hq]; rfl) ‹¬ x.workItems.isEmpty = true›
  | quit =>
    cases hs
    have hx' := Locked.atomic_execs_of_eq hx (by rw [hh]; rfl)
    obtain ⟨hq, hb⟩ := hf
    refine ⟨hc.release e _, ?_⟩
    rw [Holder.commits, Matches, Locked.atomic_put]
    exact (step_loop hx' hpc).trans (loopBlock_quit hq hb)
  | pop =>
    simp only [loopLine] at hs
    split at hs
    · exact absurd ‹_› hf
    · rename_i i rest hq
      obtain ⟨it, hit, rfl⟩ := Option.map_eq_some_iff.1 hs
      have hx' := Locked.atomic_execs_of_eq hx (by rw [hh]; rfl)
      have hp : s.base.placeOf i = some (.queued e) := ((hi.exec e x hx').queued i).1 (hq ▸ List.mem_cons_self ..)
      have hnew : Consistent (s.put e { x with workItems := rest, taken := x.taken ++ [i] }
          (some (.loop (.leave i)))) := hc.hold ⟨hpc, trivial⟩ rfl
      refine ⟨hnew.setItem fun f h hf hi => absurd hi (hnew.not_carries hp (fun _ h => by cases h) hf), ?_⟩
      rw [Holder.commits, Matches, Locked.atomic_setItem, Locked.atomic_put]
      exact (step_loop hx' hpc).trans (loopBlock_pop hq hit)
  | leave i =>
    cases hs
    exact ⟨hc.release e _, matches_put hx (by rw [hh]; rfl)⟩

/-- The lines of `done` on the work thread, which has not entered its loop: the notification is lost. -/
theorem matches_enterLine (hc : Consistent s) (hx : s.base.execs e = some x) {l : DoneLine}
    (hh : s.holder e = some (.enter l)) (hpc : x.pc = .notEntered) (ha : x.awaitedDone = true) :
    Consistent (enterLine s e x l) ∧ Matches s (enterLine s e x l) ((Holder.enter l).commits e x) := by
  cases l with
  | set =>
    have hx' := Locked.atomic_execs_of_eq hx (by rw [hh]; rfl)
    refine ⟨hc.hold ⟨hpc, ha⟩ rfl, ?_⟩
    rw [Holder.commits, Matches, enterLine, Locked.atomic_put]
    exact step_enterDone hx' hpc ha
  | notify =>
    have hn : x.notify = x := notify_eq_self fun b hb => by rw [hpc] at hb; cases hb
    rw [enterLine, hn]
    exact ⟨hc.hold ⟨hpc, ha⟩ rfl, matches_put hx (by rw [hh]; rfl)⟩
  | leave => exact ⟨hc.release e _, matches_put hx (by rw [hh]; rfl)⟩

/-- The lines of `done` on the thread that resolved the future. -/
theorem matches_doneLine (hc : Consistent s) (hx : s.base.execs e = some x) {l : DoneLine}
    (hh : s.holder e = some (.done l)) (hf : (Holder.done l).Fits x) :
    Consistent (doneLine s e x l) ∧ Matches s (doneLine s e x l) ((Holder.done l).commits e x) := by
  cases l with
  | set =>
    obtain ⟨ha, hr⟩ := hf rfl
    have hx' := Locked.atomic_execs_of_eq hx (by rw [hh]; rfl)
    refine ⟨hc.hold (Holder.fits_done (by decide)) rfl, ?_⟩
    rw [Holder.commits, Matches, doneLine, Locked.atomic_put]
    exact (step_done hx' ha hr).trans (congrArg (fun y => some (s.atomic.setExec e y)) (notify_done x).symm)
  | notify => exact ⟨hc.hold (Holder.fits_done (by decide)) rfl, matches_put hx (by rw [hh]; rfl)⟩
  | leave => exact ⟨hc.release e _, matches_put hx (by rw [hh]; rfl)⟩

/-- The lines of `submit`. -/
theorem matches_submitLine (hc : Consistent s) (hx : s.base.execs e = some x) {i : ItemId} {l : SubmitLine}
    (hh : s.holder e = some (.submit i l)) (hf : (Holder.submit i l).Fits x)
    (hs : submitLine s e x i l = some s') :
    Consistent s' ∧ Matches s s' ((Holder.submit i l).commits e x) := by
  cases l with
  | test =>
    cases hs
    have hp : s.base.placeOf i = some (.walking e) := hc.carried e _ i hh rfl
    refine ⟨hc.holdItem ?_ fun j hj => ?_, matches_put hx (by rw [hh]; split <;> rfl)⟩
    · split
      · exact Holder.fits_next ‹x.broken = true›
      · exact Holder.fits_append (Bool.eq_false_iff.2 ‹¬ x.broken = true›)
    · split at hj <;> cases hj <;> exact hp
  | append =>
    obtain ⟨it, hit, rfl⟩ := Option.map_eq_some_iff.1 hs
    have hp : s.base.placeOf i = some (.walking e) := hc.carried e _ i hh rfl
    have hplace : it.place = .walking e := State.place_eq hit hp
    have hx' := Locked.atomic_execs_of_eq hx (by rw [hh]; rfl)
    refine ⟨hc.handOver (by rintro h ⟨⟩; exact ⟨Holder.fits_submit (by decide) (by decide), rfl⟩) hp _, ?_⟩
    rw [Holder.commits, Matches, Locked.atomic_setItem, Locked.atomic_put]
    exact (step_walk (s := s.atomic) hit hplace hx').trans (congrArg some (walkBlock_append (hf.1 rfl)))
  | notify =>
    cases hs
    exact ⟨hc.hold (Holder.fits_submit (by decide) (by decide)) rfl, matches_put hx (by rw [hh]; rfl)⟩
  | leave =>
    cases hs
    exact ⟨hc.release e _, matches_put hx (by rw [hh]; rfl)⟩
  | next =>
    obtain ⟨it, hit, rfl⟩ := Option.map_eq_some_iff.1 hs
    have hp : s.base.placeOf i = some (.walking e) := hc.carried e _ i hh rfl
    have hplace : it.place = .walking e := State.place_eq hit hp
    have hx' := Locked.atomic_execs_of_eq hx (by rw [hh]; rfl)
    refine ⟨hc.handOver (by rintro h ⟨⟩) hp _, ?_⟩
    rw [Holder.commits, Matches, Locked.atomic_setItem, Locked.atomic_put]
    rw [show x.finishBlock none = x from rfl, State.setExec_self hx']
    exact (step_walk (s := s.atomic) hit hplace hx').trans (congrArg some (walkBlock_next (hf.2 rfl)))

theorem matches_line (hc : Consistent s) (hi : Inv s.atomic) (hx : s.base.execs e = some x) {h : Holder}
    (hh : s.holder e = some h) (hs : s.line e x h = some s') : Consistent s' ∧ Matches s s' (h.commits e x) := by
  have hf := hc.fits_of hx hh
  cases h with
  | loop l => exact matches_loopLine hc hi hx hh hf.1 hf.2 hs
  | enter l =>
    cases hs
    exact matches_enterLine hc hx hh hf.1 hf.2
  | done l =>
    cases hs
    exact matches_doneLine hc hx hh hf
  | submit i l => exact matches_submitLine hc hx hh hf hs

end Lines

/-! ### Moves -/

/-- The action that a move is, `none` where the machine of the blocks does not see it. -/
def Locked.visible (s : Locked) : Move → Option Action
  | .free a => some a
  | .enter e t =>
    if ((s.base.execs e).any fun x => t = x.workThread ∧ ¬ x.awaitedDone) then some (.enter e t) else none
  | .line e => (s.base.execs e).bind fun x => (s.holder e).bind fun h => h.commits e x
  | .callback _ | .lock _ | .take _ => none

/-- The future is not done, so `add_done_callback` takes no lock, whoever holds it. -/
theorem matches_register {s : Locked} (hc : Consistent s) {e : ExecutorId} {x : Executor} {t : ThreadId}
    (hx : s.base.execs e = some x) (hpc : x.pc = .notEntered) (ha : x.awaitedDone = false) (ht : t = x.workThread) :
    Consistent (s.put e { x with registered := true, pc := .locking } (s.holder e)) ∧
      Matches s (s.put e { x with registered := true, pc := .locking } (s.holder e)) (s.visible (.enter e t)) := by
  have hout : ∀ h, s.holder e = some h → h.Fits x ∧ h.isWorkThread = false := by
    intro h hh
    have hf := hc.fits_of hx hh
    refine ⟨hf, ?_⟩
    cases h with
    | loop l => rcases hf.1 with hl | hl <;> rw [hpc] at hl <;> cases hl
    | enter l =>
      rw [hf.2] at ha
      cases ha
    | done l => rfl
    | submit i l => rfl
  have hx' : s.atomic.execs e = some x := by
    refine Locked.atomic_execs_of_eq hx (finishBlock_outside (fun h hh => (hout h hh).2) fun b hb => ?_)
    rw [hpc] at hb
    cases hb
  refine ⟨hc.put (fun h hh => ?_) fun h i hh hi => hc.carried e h i hh hi, ?_⟩
  · exact (hout h hh).1.flags (hout h hh).2 id (fun _ => rfl) rfl
  · have hv : s.visible (.enter e t) = some (.enter e t) := by simp [Locked.visible, hx, ht, ha]
    have hy := finishBlock_outside (x := { x with registered := true, pc := .locking })
      (fun h hh => (hout h hh).2) fun b hb => by cases hb
    rw [hv, Matches, Locked.atomic_put, hy]
    exact step_enter hx' hpc ha ht

/-- `run_until_future` up to its loop, or up to `done`. -/
theorem matches_enter {s s' : Locked} (hc : Consistent s) {e : ExecutorId} {t : ThreadId}
    (hs : s.step (.enter e t) = some s') : Consistent s' ∧ Matches s s' (s.visible (.enter e t)) := by
  simp only [Locked.step, Option.bind_eq_bind, Option.bind_eq_some_iff] at hs
  obtain ⟨x, hx, hs⟩ := hs
  split at hs
  · cases hs
  have hpc : x.pc = .notEntered := by simpa using ‹¬ x.pc ≠ .notEntered›
  split at hs
  · cases hs
    have hv : s.visible (.enter e t) = none := by simp [Locked.visible, hx, ‹t ≠ x.workThread›]
    rw [hv]
    exact ⟨hc, rfl⟩
  have ht : t = x.workThread := by simpa using ‹¬ t ≠ x.workThread›
  split at hs
  · rename_i ha
    simp only [Option.ite_none_right_eq_some, Option.some.injEq] at hs
    obtain ⟨hfree, rfl⟩ := hs
    have hv : s.visible (.enter e t) = none := by simp [Locked.visible, hx, ha]
    rw [hv]
    exact ⟨hc.hold ⟨hpc, ha⟩ rfl, matches_put hx (by rw [hfree]; rfl)⟩
  · cases hs
    exact matches_register hc hx hpc (by simpa using ‹¬ x.awaitedDone = true›) ht

/-- **The step lemma.** -/
theorem matches_step {s s' : Locked} {m : Move} (hc : Consistent s) (hi : Inv s.atomic)
    (hs : s.step m = some s') : Consistent s' ∧ Matches s s' (s.visible m) := by
  cases m with
  | free a =>
    simp only [Locked.step, Option.ite_none_right_eq_some, Option.map_eq_some_iff] at hs
    obtain ⟨ha, b, hb, rfl⟩ := hs
    exact step_free hc hi ha hb
  | enter e t => exact matches_enter hc hs
  | callback e =>
    simp only [Locked.step, Option.bind_eq_bind, Option.bind_eq_some_iff, Option.ite_none_right_eq_some,
      Option.some.injEq] at hs
    obtain ⟨x, hx, ⟨ha, hr, hfree⟩, rfl⟩ := hs
    exact ⟨hc.hold (fun _ => ⟨ha, hr⟩) rfl, matches_put hx (by rw [hfree]; rfl)⟩
  | lock e =>
    simp only [Locked.step, Option.bind_eq_bind, Option.bind_eq_some_iff, Option.ite_none_right_eq_some,
      Option.some.injEq] at hs
    obtain ⟨x, hx, ⟨hpc, hfree⟩, rfl⟩ := hs
    exact ⟨hc.hold ⟨hpc, trivial⟩ rfl, matches_put hx (by rw [hfree]; rfl)⟩
  | take i =>
    simp only [Locked.step, Option.bind_eq_bind, Option.bind_eq_some_iff] at hs
    obtain ⟨it, hit, hs⟩ := hs
    split at hs
    · rename_i e hplace
      simp only [Option.bind_eq_some_iff, Option.ite_none_right_eq_some, Option.some.injEq] at hs
      obtain ⟨x, hx, hfree, rfl⟩ := hs
      refine ⟨hc.holdItem (Holder.fits_submit (by decide) (by decide)) ?_, matches_put hx (by rw [hfree]; rfl)⟩
      rintro j ⟨⟩
      rw [State.placeOf_of_items hit, hplace]
    · cases hs
  | line e =>
    simp only [Locked.step, Option.bind_eq_bind, Option.bind_eq_some_iff] at hs
    obtain ⟨x, hx, h, hh, hs⟩ := hs
    simp only [Locked.visible, hx, hh, Option.bind_some]
    exact matches_line hc hi hx hh hs

/-- A thread that holds a lock can execute its next line: it waits for no other one, and `popleft` finds an item. -/
theorem exists_line {s : Locked} (hc : Consistent s) (hi : Inv s.atomic) {e : ExecutorId} {h : Holder}
    (hh : s.holder e = some h) : ∃ s', s.step (.line e) = some s' := by
  obtain ⟨x, hx, hf⟩ := hc.fits e h hh
  rw [Locked.step_line hx hh]
  have hitem : ∀ {i p}, s.base.placeOf i = some p → ∃ it, s.base.items i = some it := fun hp =>
    (Option.map_eq_some_iff.1 hp).imp fun _ => And.left
  cases h with
  | loop l =>
    cases l with
    | pop =>
      obtain ⟨i, rest, hq⟩ := List.exists_cons_of_ne_nil hf.2
      have hx' := Locked.atomic_execs_of_eq hx (by rw [hh]; rfl)
      obtain ⟨it, hit⟩ := hitem (((hi.exec e x hx').queued i).1 (hq ▸ List.mem_cons_self ..))
      simp only [Locked.line, loopLine, hq, hit, Option.map_some]
      exact ⟨_, rfl⟩
    | _ => exact ⟨_, rfl⟩
  | enter l => exact ⟨_, rfl⟩
  | done l => exact ⟨_, rfl⟩
  | submit i l =>
    cases l with
    | append | next =>
      obtain ⟨it, hit⟩ := hitem (hc.carried e _ i hh rfl)
      simp only [Locked.line, submitLine, hit, Option.map_some]
      exact ⟨_, rfl⟩
    | _ => exact ⟨_, rfl⟩

/-- The machine of the lines is simulated by the machine of the blocks. -/
theorem simulates_machine : locked.Simulates (fun t a u => machine.step t a = some u) Locked.visible
    (fun s t => Consistent s ∧ Inv t ∧ t = s.atomic) := by
  rintro s m s' _ ⟨hc, hi, rfl⟩ hs
  obtain ⟨hc', hm⟩ := matches_step hc hi hs
  cases hv : s.visible m with
  | none =>
    rw [hv] at hm
    exact ⟨hc', hi, hm.symm⟩
  | some a =>
    rw [hv] at hm
    exact ⟨s'.atomic, hm, hc', inv_step hi hm, rfl⟩

/-- **The run lemma.**  Whatever the threads do line by line, the state between the blocks is reached by the
blocks, in the order in which they took effect. -/
theorem run_atomic {s : Locked} {ms : List Move} (hrun : locked.run Locked.init ms = some s) :
    Consistent s ∧ machine.run State.init (locked.trace Locked.visible Locked.init ms) = some s.atomic := by
  obtain ⟨_, hsteps, hc, -, rfl⟩ :=
    simulates_machine.run (t := State.init) ⟨consistent_init, inv_init, rfl⟩ hrun
  exact ⟨hc, Machine.run_of_steps hsteps⟩

end Asgiref.CurrentThreadExecutor
