import Asgiref.CurrentThreadExecutor.Model
import Mathlib.Data.List.Nodup

/-!
# What every step of the executors keeps

* `WorkItem.Ok` — what the place of an item says about its future and the calls of its function;
* `ExecOk` — the queue of an executor holds exactly the items queued there, its work thread holds exactly the
  item popped or being called there, the items were taken in the order in which they were appended, and an
  executor whose `run_until_future` has returned is broken and has an empty queue;
* `Inv` — both, for every item and every executor; `inv_step`, `inv_run`.

The broken flag and the exit of the loop are tied together by the lock: `submit` appends only where the flag is
down (`walkBlock`), the loop is left only where the flag is up and the queue empty (`loopBlock`), and nothing
takes the flag down again.
-/

namespace Asgiref.CurrentThreadExecutor

open Asgiref.Python Asgiref.Lib

/-- What the place of an item says about its future and the calls of its function. -/
def WorkItem.Ok (it : WorkItem) : Prop :=
  match it.place with
  | .walking _ | .rejected | .queued _ | .popped _ =>
    it.calls = 0 ∧ (it.future = .pending ∨ it.future = .cancelled)
  | .calling _ => it.calls = 1 ∧ it.future = .running
  | .finished =>
    (it.calls = 1 ∧ ∃ r, it.future = .finished r) ∨ (it.calls = 0 ∧ it.future = .cancelledAndNotified)

/-- The executor a place belongs to. -/
def Place.exec? : Place → Option ExecutorId
  | .walking e | .queued e | .popped e | .calling e => some e
  | .rejected | .finished => none

/-- The item is in the hands of the executor `e`: in its queue, or taken out and not yet finished. -/
def Place.heldBy (e : ExecutorId) (p : Option Place) : Prop :=
  p = some (.queued e) ∨ p = some (.popped e) ∨ p = some (.calling e)

structure ExecOk (s : State) (e : ExecutorId) (x : Executor) : Prop where
  /-- The queue holds exactly the items queued at `e`. -/
  queued : ∀ i, i ∈ x.workItems ↔ s.placeOf i = some (.queued e)
  /-- No item is in the queue twice. -/
  nodup : x.workItems.Nodup
  /-- The work thread holds exactly the item popped at `e`. -/
  popped : ∀ i, x.pc = .popped i ↔ s.placeOf i = some (.popped e)
  /-- The work thread calls exactly the function of the item being called at `e`. -/
  calling : ∀ i, x.pc = .calling i ↔ s.placeOf i = some (.calling e)
  /-- Items leave the queue in the order in which they entered it. -/
  log : x.appended = x.taken ++ x.workItems
  /-- Of the items taken out, all but the last are finished. -/
  order : ∀ i ∈ x.taken, s.placeOf i = some .finished ∨ (x.pc.item? = some i ∧ x.taken.getLast? = some i)
  /-- The loop is left only when the executor is broken and its queue empty. -/
  returned : x.pc = .returned → x.workItems = [] ∧ x.broken = true
  /-- No exception leaves the loop. -/
  escaped : ∀ ex, x.pc ≠ .escaped ex

structure Inv (s : State) : Prop where
  exec : ∀ e x, s.execs e = some x → ExecOk s e x
  item : ∀ i it, s.items i = some it → it.Ok
  /-- A place belongs to an executor that exists. -/
  home : ∀ i p e, s.placeOf i = some p → p.exec? = some e → (s.execs e).isSome
  /-- The chain of executors stays inside the executors that exist. -/
  chain : ∀ e x o, s.execs e = some x → x.oldExecutor = some o → (s.execs o).isSome

theorem inv_init : Inv State.init where
  exec := by intro e x h; cases h
  item := by intro e x h; cases h
  home := by intro i p e h; cases h
  chain := by intro e x o h; cases h

/-! ### Updates -/

/-- `ExecOk` speaks about the places of the executor and about finished items only. -/
theorem ExecOk.congr {s s' : State} {e : ExecutorId} {x : Executor} (h : ExecOk s e x)
    (hheld : ∀ i, Place.heldBy e (s.placeOf i) ∨ Place.heldBy e (s'.placeOf i) → s'.placeOf i = s.placeOf i)
    (hfin : ∀ i, s.placeOf i = some .finished → s'.placeOf i = some .finished) : ExecOk s' e x where
  queued i := by
    rw [h.queued i]
    exact ⟨fun hp => by rw [hheld i (.inl (.inl hp))]; exact hp,
      fun hp => by rw [← hheld i (.inr (.inl hp))]; exact hp⟩
  nodup := h.nodup
  popped i := by
    rw [h.popped i]
    exact ⟨fun hp => by rw [hheld i (.inl (.inr (.inl hp)))]; exact hp,
      fun hp => by rw [← hheld i (.inr (.inr (.inl hp)))]; exact hp⟩
  calling i := by
    rw [h.calling i]
    exact ⟨fun hp => by rw [hheld i (.inl (.inr (.inr hp)))]; exact hp,
      fun hp => by rw [← hheld i (.inr (.inr (.inr hp)))]; exact hp⟩
  log := h.log
  order i hi := (h.order i hi).imp (hfin i) id
  returned := h.returned
  escaped := h.escaped

theorem isSome_execs_setExec {s : State} {e f : ExecutorId} (y : Executor) (h : (s.execs f).isSome) :
    ((s.setExec e y).execs f).isSome := by
  rw [State.execs_setExec]
  split
  · rfl
  · exact h

/-- A step on the executor `e` alone. -/
theorem Inv.setExec {s : State} (h : Inv s) {e : ExecutorId} {y : Executor} (hy : ExecOk s e y)
    (hold : ∀ o, y.oldExecutor = some o → (s.execs o).isSome) : Inv (s.setExec e y) where
  exec f z hz := by
    have hz' : ExecOk s f z := by
      rw [State.execs_setExec] at hz
      split at hz
      · rename_i hfe
        cases hz
        rw [hfe]; exact hy
      · exact h.exec f z hz
    exact hz'.congr (fun i _ => rfl) (fun i hi => hi)
  item i it hit := h.item i it hit
  home i p f hp hf := isSome_execs_setExec y (h.home i p f hp hf)
  chain f z o hz ho := by
    refine isSome_execs_setExec y ?_
    rw [State.execs_setExec] at hz
    split at hz
    · cases hz; exact hold o ho
    · exact h.chain f z o hz ho

/-- A step on the item `i` alone, which leaves the hands of no executor and enters none. -/
theorem Inv.setItem {s : State} (h : Inv s) {i : ItemId} {it : WorkItem} (hit : it.Ok)
    (hheld : ∀ e, Place.heldBy e (s.placeOf i) ∨ Place.heldBy e (some it.place) → s.placeOf i = some it.place)
    (hfin : s.placeOf i = some .finished → it.place = .finished)
    (hhome : ∀ e, it.place.exec? = some e → (s.execs e).isSome) : Inv (s.setItem i it) where
  exec e x hx := by
    refine (h.exec e x hx).congr (fun j hj => ?_) (fun j hj => ?_)
    · rw [State.placeOf_setItem] at hj ⊢
      split at hj
      · rename_i hji
        subst hji
        rw [if_pos rfl]
        exact (hheld e hj).symm
      · rename_i hji
        rw [if_neg hji]
    · rw [State.placeOf_setItem]
      split
      · rename_i hji
        subst hji
        rw [hfin hj]
      · exact hj
  item j jt hjt := by
    rw [State.items_setItem] at hjt
    split at hjt
    · cases hjt; exact hit
    · exact h.item j jt hjt
  home j p e hp he := by
    rw [State.placeOf_setItem] at hp
    split at hp
    · cases hp; exact hhome e he
    · exact h.home j p e hp he
  chain := h.chain

/-- A step that moves the item `i` within the hands of the executor `e`, into them, or out of them to
`finished`. -/
theorem Inv.move {s : State} (h : Inv s) {e : ExecutorId} {y : Executor} {i : ItemId} {it : WorkItem}
    (hy : ExecOk ((s.setExec e y).setItem i it) e y)
    (hchain : ∀ o, y.oldExecutor = some o → (s.execs o).isSome) (hit : it.Ok)
    (hold : ∀ f, Place.heldBy f (s.placeOf i) → f = e) (hnew : ∀ f, it.place.exec? = some f → f = e)
    (hfin : s.placeOf i = some .finished → it.place = .finished) : Inv ((s.setExec e y).setItem i it) where
  exec f z hz := by
    rw [State.execs_setItem, State.execs_setExec] at hz
    split at hz
    · rename_i hfe
      cases hz
      rw [hfe]; exact hy
    · rename_i hfe
      refine (h.exec f z hz).congr (fun j hj => ?_) (fun j hj => ?_)
      · rw [State.placeOf_move] at hj ⊢
        split at hj
        · rename_i hji
          subst hji
          rcases hj with hj | hj
          · exact absurd (hold f hj) hfe
          · refine absurd (hnew f ?_) hfe
            rcases hj with hj | hj | hj <;> rw [Option.some.inj hj] <;> rfl
        · rename_i hji
          rw [if_neg hji]
      · rw [State.placeOf_move]
        split
        · rename_i hji
          subst hji
          rw [hfin hj]
        · exact hj
  item j jt hjt := by
    rw [State.items_setItem] at hjt
    split at hjt
    · cases hjt; exact hit
    · exact h.item j jt hjt
  home j p f hp hf := by
    rw [State.execs_setItem, State.execs_setExec]
    rw [State.placeOf_move] at hp
    split
    · rfl
    · split at hp
      · cases hp
        rename_i hfe _
        exact absurd (hnew f hf) hfe
      · exact h.home j p f hp hf
  chain f z o hz ho := by
    refine isSome_execs_setExec y ?_
    rw [State.execs_setItem, State.execs_setExec] at hz
    split at hz
    · cases hz; exact hchain o ho
    · exact h.chain f z o hz ho

/-! ### The steps -/

/-- A change of the executor that leaves its queue and its items alone. -/
theorem ExecOk.idle {s : State} {e : ExecutorId} {x y : Executor} (h : ExecOk s e x)
    (hq : y.workItems = x.workItems) (hpc : y.pc.item? = x.pc.item?)
    (hp : ∀ i, y.pc = .popped i ↔ x.pc = .popped i) (hc : ∀ i, y.pc = .calling i ↔ x.pc = .calling i)
    (ha : y.appended = x.appended) (ht : y.taken = x.taken)
    (hr : y.pc = .returned → y.workItems = [] ∧ y.broken = true) (he : ∀ ex, y.pc ≠ .escaped ex) :
    ExecOk s e y where
  queued i := by rw [hq]; exact h.queued i
  nodup := by rw [hq]; exact h.nodup
  popped i := by rw [hp i]; exact h.popped i
  calling i := by rw [hc i]; exact h.calling i
  log := by rw [ha, ht, hq]; exact h.log
  order i hi := by rw [ht] at hi ⊢; rw [hpc]; exact h.order i hi
  returned := hr
  escaped := he

/-- Waking the work thread moves no item. -/
theorem ExecOk.notify {s : State} {e : ExecutorId} {x : Executor} (h : ExecOk s e x) : ExecOk s e x.notify := by
  rw [notify_eq]
  rcases notify_pc x with hpc | ⟨b, hb, hpc⟩
  · rw [hpc]; exact h
  · rw [hpc]
    exact h.idle rfl (by rw [hb]; rfl) (by simp [hb]) (by simp [hb]) rfl rfl (by simp) (by simp)

/-- The loop takes the first item of the queue. -/
theorem inv_loopPop {s : State} (h : Inv s) {e : ExecutorId} {x : Executor} {i : ItemId} {rest : List ItemId}
    {it : WorkItem} (hx : s.execs e = some x) (hpc : x.pc.item? = none) (hcons : x.workItems = i :: rest)
    (hit : s.items i = some it) :
    Inv ((s.setExec e { x with workItems := rest, pc := .popped i, taken := x.taken ++ [i] }).setItem i
      { it with place := .popped e }) := by
  have hE := h.exec e x hx
  have hnp : ∀ j, x.pc ≠ .popped j := fun j hj => by rw [hj] at hpc; cases hpc
  have hnc : ∀ j, x.pc ≠ .calling j := fun j hj => by rw [hj] at hpc; cases hpc
  have hplace : s.placeOf i = some (.queued e) := (hE.queued i).1 (by rw [hcons]; simp)
  have hitp : it.place = .queued e := State.place_eq hit hplace
  have hok := h.item i it hit
  have hnd : i ∉ rest ∧ rest.Nodup := by simpa [hcons] using hE.nodup
  refine h.move ?_ (h.chain e x · hx) ?_ ?_ ?_ ?_
  · refine ⟨fun j => ?_, hnd.2, fun j => ?_, fun j => ?_, ?_, fun j hj => ?_, by simp, by simp⟩
    · -- the rest of the queue
      rw [State.placeOf_move]
      split
      · rename_i hji; subst hji; simpa using hnd.1
      · rename_i hji
        rw [← hE.queued j, hcons]
        simp [hji]
    · rw [State.placeOf_move]
      split
      · rename_i hji; subst hji; simp
      · rename_i hji
        rw [← hE.popped j]
        simp [hnp, Ne.symm hji]
    · rw [State.placeOf_move]
      split
      · simp
      · rw [← hE.calling j]; simp [hnc]
    · simp [hE.log, hcons]
    · rw [State.placeOf_move]
      rcases List.mem_append.1 hj with hj | hj
      · rcases hE.order j hj with hf | ⟨hf, -⟩
        · refine Or.inl ?_
          rw [if_neg (by rintro rfl; rw [hplace] at hf; cases hf)]
          exact hf
        · rw [hpc] at hf; cases hf
      · rw [List.mem_singleton] at hj
        subst hj
        exact Or.inr ⟨rfl, by simp⟩
  · simpa [WorkItem.Ok, hitp] using hok
  · intro f hf
    rw [hplace] at hf
    rcases hf with hf | hf | hf <;> cases hf
    rfl
  · intro f hf
    cases hf; rfl
  · intro hf
    rw [hplace] at hf; cases hf

/-- The item in the hands of the work thread goes to `finished`, and the thread back to the top of the loop. -/
theorem inv_finish {s : State} (h : Inv s) {e : ExecutorId} {x : Executor} {i : ItemId} {it : WorkItem}
    (hx : s.execs e = some x) (hpc : x.pc.item? = some i) (hit : it.Ok) (hp : it.place = .finished)
    (hold : s.placeOf i = some (.popped e) ∨ s.placeOf i = some (.calling e)) :
    Inv ((s.setExec e { x with pc := .locking }).setItem i it) := by
  have hE := h.exec e x hx
  have hnq : s.placeOf i ≠ some (.queued e) := by rcases hold with hp | hp <;> rw [hp] <;> simp
  refine h.move ?_ (h.chain e x · hx) hit ?_ ?_ fun _ => hp
  · have huniq : ∀ j, x.pc = .popped j ∨ x.pc = .calling j → j = i := by
      rintro j (hj | hj) <;> rw [hj] at hpc <;> cases hpc <;> rfl
    refine ⟨fun j => ?_, hE.nodup, fun j => ?_, fun j => ?_, hE.log, fun j hj => ?_, by simp, by simp⟩
    · rw [State.placeOf_move, hp]
      split
      · rename_i hji; subst hji
        rw [hE.queued j]
        simpa using hnq
      · exact hE.queued j
    · rw [State.placeOf_move, hp]
      split
      · simp
      · rename_i hji
        rw [← hE.popped j]
        exact ⟨nofun, fun hj => absurd (huniq j (.inl hj)) hji⟩
    · rw [State.placeOf_move, hp]
      split
      · simp
      · rename_i hji
        rw [← hE.calling j]
        exact ⟨nofun, fun hj => absurd (huniq j (.inr hj)) hji⟩
    · rw [State.placeOf_move, hp]
      rcases hE.order j hj with hf | ⟨hf, -⟩
      · exact Or.inl (by split <;> first | rfl | exact hf)
      · rw [hpc] at hf
        cases hf
        exact Or.inl (if_pos rfl)
  · intro f hf
    rcases hold with hp | hp <;> rw [hp] at hf <;> rcases hf with hf | hf | hf <;> cases hf <;> rfl
  · intro f hf
    rw [hp] at hf; cases hf

/-- `_WorkItem.run` up to the call of `fn`: the future of a popped item is pending or cancelled, so
`set_running_or_notify_cancel` does not raise. -/
theorem inv_runItem {s : State} (h : Inv s) {e : ExecutorId} {x : Executor} {i : ItemId} {it : WorkItem}
    (hx : s.execs e = some x) (hpc : x.pc = .popped i) (hit : s.items i = some it) :
    Inv (runItem s e x i it) := by
  have hE := h.exec e x hx
  have hplace : s.placeOf i = some (.popped e) := (hE.popped i).1 hpc
  have hitp : it.place = .popped e := State.place_eq hit hplace
  have hok : it.calls = 0 ∧ (it.future = .pending ∨ it.future = .cancelled) := by
    simpa [WorkItem.Ok, hitp] using h.item i it hit
  unfold runItem
  rcases hok.2 with hf | hf
  · -- pending: the function is called
    simp only [hf, Future.setRunningOrNotifyCancel]
    refine h.move ?_ (h.chain e x · hx) ?_ ?_ ?_ ?_
    · refine ⟨fun j => ?_, hE.nodup, fun j => ?_, fun j => ?_, hE.log, fun j hj => ?_, by simp, by simp⟩
      · rw [State.placeOf_move]
        split
        · rename_i hji; subst hji
          rw [hE.queued j, hplace]; simp
        · exact hE.queued j
      · rw [State.placeOf_move]
        split
        · simp
        · rename_i hji
          rw [← hE.popped j, hpc]
          simp [Ne.symm hji]
      · rw [State.placeOf_move]
        split
        · rename_i hji; subst hji; simp
        · rename_i hji
          rw [← hE.calling j, hpc]
          simp [Ne.symm hji]
      · rw [State.placeOf_move]
        rcases hE.order j hj with hf' | ⟨hf', hl⟩
        · refine Or.inl ?_
          rw [if_neg (by rintro rfl; rw [hplace] at hf'; cases hf')]
          exact hf'
        · rw [hpc] at hf'
          cases hf'
          exact Or.inr ⟨rfl, hl⟩
    · simp [WorkItem.Ok, hok.1]
    · intro f hf'
      rw [hplace] at hf'
      rcases hf' with hf' | hf' | hf' <;> cases hf'
      rfl
    · intro f hf'
      cases hf'; rfl
    · intro hf'
      rw [hplace] at hf'; cases hf'
  · -- cancelled: the function is not called
    simp only [hf, Future.setRunningOrNotifyCancel]
    exact inv_finish h hx (by rw [hpc]; rfl) (Or.inr ⟨hok.1, rfl⟩) rfl (Or.inl hplace)

/-- `_WorkItem.run` after the call of `fn`: the future is running, so it takes the result or exception. -/
theorem inv_completeItem {s : State} (h : Inv s) {e : ExecutorId} {x : Executor} {i : ItemId} {it : WorkItem}
    (hx : s.execs e = some x) (hpc : x.pc = .calling i) (hit : s.items i = some it) (r : Result Unit) :
    Inv (completeItem s e x i it r) := by
  have hplace : s.placeOf i = some (.calling e) := ((h.exec e x hx).calling i).1 hpc
  have hitp : it.place = .calling e := State.place_eq hit hplace
  have hok : it.calls = 1 ∧ it.future = .running := by
    simpa [WorkItem.Ok, hitp] using h.item i it hit
  unfold completeItem
  simp only [hok.2, Future.settle_running]
  exact inv_finish h hx (by rw [hpc]; rfl) (Or.inl ⟨hok.1, r, rfl⟩) rfl (Or.inr hplace)

/-- A submitter drops an item, or carries it to another executor that exists. -/
theorem inv_carry {s : State} (h : Inv s) {e : ExecutorId} {i : ItemId} {it : WorkItem} {p : Place}
    (hit : s.items i = some it) (hp : it.place = .walking e)
    (hnew : p = .rejected ∨ ∃ o, p = .walking o ∧ (s.execs o).isSome) :
    Inv (s.setItem i { it with place := p }) := by
  have hplace : s.placeOf i = some (.walking e) := by rw [State.placeOf_of_items hit, hp]
  have hok : it.calls = 0 ∧ (it.future = .pending ∨ it.future = .cancelled) := by
    simpa [WorkItem.Ok, hp] using h.item i it hit
  refine h.setItem ?_ (fun f hf => ?_) (fun hf => ?_) (fun f hf => ?_)
  · rcases hnew with rfl | ⟨o, rfl, -⟩ <;> exact hok
  · rw [hplace] at hf
    rcases hnew with rfl | ⟨o, rfl, -⟩ <;> rcases hf with hf | hf <;> rcases hf with hf | hf | hf <;> cases hf
  · rw [hplace] at hf; cases hf
  · rcases hnew with rfl | ⟨o, rfl, ho⟩
    · cases hf
    · cases hf; exact ho

/-- An executor whose flag is down accepts the item. -/
theorem inv_append {s : State} (h : Inv s) {e : ExecutorId} {x : Executor} {i : ItemId} {it : WorkItem}
    (hx : s.execs e = some x) (hit : s.items i = some it) (hp : it.place = .walking e)
    (hb : x.broken = false) :
    Inv ((s.setExec e (x.append i)).setItem i { it with place := .queued e }) := by
  have hE := h.exec e x hx
  have hplace : s.placeOf i = some (.walking e) := by rw [State.placeOf_of_items hit, hp]
  have hok : it.calls = 0 ∧ (it.future = .pending ∨ it.future = .cancelled) := by
    simpa [WorkItem.Ok, hp] using h.item i it hit
  have hnheld : ∀ f, ¬ Place.heldBy f (s.placeOf i) := by
    intro f hf
    rw [hplace] at hf
    rcases hf with hf | hf | hf <;> cases hf
  have hnfin : s.placeOf i ≠ some .finished := by rw [hplace]; simp
  have hchain : ∀ o, (x.append i).oldExecutor = some o → (s.execs o).isSome := by
    intro o ho
    rw [Executor.append, notify_eq] at ho
    exact h.chain e x o hx ho
  refine h.move ?_ hchain hok (fun f hf => absurd hf (hnheld f)) (fun f hf => by cases hf; rfl)
    (fun hf => absurd hf hnfin)
  have hni : i ∉ x.workItems := by rw [hE.queued i, hplace]; simp
  refine ExecOk.notify ⟨fun j => ?_, ?_, fun j => ?_, fun j => ?_, ?_, fun j hj => ?_, ?_, hE.escaped⟩
  · rw [State.placeOf_move]
    split
    · rename_i hji; subst hji; simp
    · rename_i hji
      rw [← hE.queued j]
      simp [hji]
  · simpa [List.nodup_append] using ⟨hE.nodup, fun a ha => by rintro rfl; exact hni ha⟩
  · rw [State.placeOf_move, hE.popped j]
    split
    · rename_i hji; subst hji; simp [hplace]
    · rfl
  · rw [State.placeOf_move, hE.calling j]
    split
    · rename_i hji; subst hji; simp [hplace]
    · rfl
  · simp [hE.log]
  · rw [State.placeOf_move]
    refine (hE.order j hj).imp (fun hf => ?_) id
    rw [if_neg (by rintro rfl; exact hnfin hf)]
    exact hf
  · intro hr
    rw [(hE.returned hr).2] at hb; cases hb

theorem inv_create {s : State} (h : Inv s) {e : ExecutorId} {t : ThreadId} {old : Option ExecutorId}
    (he : s.execs e = none) (hold : ∀ o, old = some o → (s.execs o).isSome) :
    Inv (s.setExec e { workThread := t, oldExecutor := old }) := by
  have hnone : ∀ i p, s.placeOf i = some p → p.exec? ≠ some e := by
    intro i p hp hpe
    have := h.home i p e hp hpe
    rw [he] at this; cases this
  refine h.setExec ⟨fun i => ?_, List.nodup_nil, fun i => ?_, fun i => ?_, rfl, nofun, nofun, nofun⟩ hold
  · exact ⟨nofun, fun hp => absurd rfl (hnone i _ hp)⟩
  · exact ⟨nofun, fun hp => absurd rfl (hnone i _ hp)⟩
  · exact ⟨nofun, fun hp => absurd rfl (hnone i _ hp)⟩

theorem item?_of_lockable {pc : LoopPc} (h : pc = .locking ∨ pc = .waiting true) : pc.item? = none := by
  rcases h with h | h <;> rw [h] <;> rfl

/-- A change of the program counter between two points where the work thread holds no item. -/
theorem ExecOk.goto {s : State} {e : ExecutorId} {x y : Executor} (h : ExecOk s e x)
    (hx : x.pc.item? = none) (hy : y.pc.item? = none) (hq : y.workItems = x.workItems)
    (ha : y.appended = x.appended) (ht : y.taken = x.taken)
    (hr : y.pc = .returned → y.workItems = [] ∧ y.broken = true) (he : ∀ ex, y.pc ≠ .escaped ex) :
    ExecOk s e y := by
  have hne : ∀ {pc : LoopPc}, pc.item? = none → ∀ i, pc ≠ .popped i ∧ pc ≠ .calling i := by
    rintro pc hpc i
    constructor <;> rintro rfl <;> cases hpc
  exact h.idle hq (by rw [hx, hy]) (fun i => iff_of_false (hne hy i).1 (hne hx i).1)
    (fun i => iff_of_false (hne hy i).2 (hne hx i).2) ha ht hr he

/-- **The step lemma.** -/
theorem inv_step {s s' : State} {a : Action} (h : Inv s) (hs : step s a = some s') : Inv s' := by
  cases stepTo_of_step hs with
  | create hnone hold => exact inv_create h hnone hold
  | enterRefused => exact h
  | @enterDone e _ x hx hpc =>
    exact h.setExec ((h.exec e x hx).goto (by rw [hpc]; rfl) rfl rfl rfl rfl nofun nofun) (h.chain e x · hx)
  | @enter e _ x hx hpc =>
    exact h.setExec ((h.exec e x hx).goto (by rw [hpc]; rfl) rfl rfl rfl rfl nofun nofun) (h.chain e x · hx)
  | @resolve e x hx =>
    have hE := h.exec e x hx
    exact h.setExec (hE.idle rfl rfl (fun _ => Iff.rfl) (fun _ => Iff.rfl) rfl rfl hE.returned hE.escaped)
      (h.chain e x · hx)
  | @done e x hx =>
    have hE := h.exec e x hx
    have hb : ExecOk s e { x with broken := true } :=
      hE.idle rfl rfl (fun _ => Iff.rfl) (fun _ => Iff.rfl) rfl rfl (fun hr => ⟨(hE.returned hr).1, rfl⟩)
        hE.escaped
    have hn := hb.notify
    refine h.setExec (hn.idle rfl rfl (fun _ => Iff.rfl) (fun _ => Iff.rfl) rfl rfl hn.returned hn.escaped)
      fun o ho => ?_
    rw [Executor.done, notify_eq] at ho
    exact h.chain e x o hx ho
  | @loopReturn e x hx hpc hq hb =>
    exact h.setExec ((h.exec e x hx).goto (item?_of_lockable hpc) rfl rfl rfl rfl (fun _ => ⟨hq, hb⟩) nofun)
      (h.chain e x · hx)
  | @loopWait e x hx hpc =>
    exact h.setExec ((h.exec e x hx).goto (item?_of_lockable hpc) rfl rfl rfl rfl nofun nofun)
      (h.chain e x · hx)
  | loopPop hx hpc hcons hit => exact inv_loopPop h hx (item?_of_lockable hpc) hcons hit
  | run hx hpc hit => exact inv_runItem h hx hpc hit
  | complete hx hpc hit => exact inv_completeItem h hx hpc hit _
  | submitRefused => exact h
  | @submit i _ e x hx hi =>
    have hi : s.placeOf i = none := by simp [State.placeOf, hi]
    refine h.setItem ⟨rfl, Or.inl rfl⟩ (fun f hf => ?_) (fun hf => ?_) (fun f hf => ?_)
    · rw [hi] at hf
      rcases hf with hf | hf <;> rcases hf with hf | hf | hf <;> cases hf
    · rw [hi] at hf; cases hf
    · cases hf; rw [hx]; rfl
  | walkRejected hit hp => exact inv_carry h hit hp (.inl rfl)
  | @walkUp _ e x _ o hit hp hx _ ho => exact inv_carry h hit hp (.inr ⟨o, rfl, h.chain e x o hx ho⟩)
  | walkAppend hit hp hx hb => exact inv_append h hx hit hp hb
  | @cancel i it hit =>
    have hp : s.placeOf i = some it.place := State.placeOf_of_items hit
    refine h.setItem ?_ (fun f _ => hp) (fun hf => ?_) (fun f hf => h.home i it.place f hp hf)
    · -- cancelling changes a pending future only
      have hok := h.item i it hit
      unfold WorkItem.Ok at hok ⊢
      split at hok <;> rename_i hpl <;> simp only [hpl] <;>
        grind [Future.cancel]
    · rw [hp] at hf
      exact Option.some.inj hf

/-- **The run lemma.** -/
theorem inv_run {s s' : State} {as : List Action} (h : Inv s) (hrun : machine.run s as = some s') : Inv s' :=
  machine.run_invariant (fun _ _ _ => inv_step) h hrun

end Asgiref.CurrentThreadExecutor
