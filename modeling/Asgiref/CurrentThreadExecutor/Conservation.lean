import Asgiref.CurrentThreadExecutor.Invariant

/-!
# No work is lost, duplicated or stranded

The consequences of the invariant for runs from the state without executors: an accepted item is in exactly one
spot (`accepted_spot`), a loop that has returned stays returned with an empty queue (`returned_run`), and an item
that is not called was cancelled (`cancel_mem`).
-/

namespace Asgiref.CurrentThreadExecutor

open Asgiref.Python Asgiref.Lib

/-- The item was appended to the queue of some executor. -/
def Accepted (s : State) (i : ItemId) : Prop := ∃ e x, s.execs e = some x ∧ i ∈ x.appended

/-- The spots an accepted item can be in. -/
inductive Spot where
  | queue (e : ExecutorId)
  | hands (e : ExecutorId)
  | finished
  deriving DecidableEq

/-- The item is in that spot: in the `_work_items` of `e`, run by the work thread of `e`, or through
`_WorkItem.run`. -/
def At (s : State) (i : ItemId) : Spot → Prop
  | .queue e => ∃ x, s.execs e = some x ∧ i ∈ x.workItems
  | .hands e => ∃ x, s.execs e = some x ∧ x.pc.item? = some i
  | .finished => s.placeOf i = some .finished

/-- The spot of a place. -/
def Place.spot? : Place → Option Spot
  | .queued e => some (.queue e)
  | .popped e | .calling e => some (.hands e)
  | .finished => some .finished
  | .walking _ | .rejected => none

theorem LoopPc.item?_eq_some {pc : LoopPc} {i : ItemId} :
    pc.item? = some i ↔ pc = .popped i ∨ pc = .calling i := by
  cases pc <;> simp [LoopPc.item?]

/-- An item is in the spot its place names, and in no other. -/
theorem at_iff {s : State} (h : Inv s) {i : ItemId} {q : Spot} :
    At s i q ↔ ∃ p, s.placeOf i = some p ∧ p.spot? = some q := by
  have hhome : ∀ {p : Place} {e : ExecutorId}, s.placeOf i = some p → p.exec? = some e →
      ∃ x, s.execs e = some x := fun hp he => Option.isSome_iff_exists.1 (h.home i _ _ hp he)
  cases q with
  | queue e =>
    constructor
    · rintro ⟨x, hx, hi⟩
      exact ⟨.queued e, ((h.exec e x hx).queued i).1 hi, rfl⟩
    · rintro ⟨p, hp, hq⟩
      cases p <;> cases hq
      obtain ⟨x, hx⟩ := hhome hp rfl
      exact ⟨x, hx, ((h.exec e x hx).queued i).2 hp⟩
  | hands e =>
    constructor
    · rintro ⟨x, hx, hi⟩
      rcases LoopPc.item?_eq_some.1 hi with hpc | hpc
      · exact ⟨.popped e, ((h.exec e x hx).popped i).1 hpc, rfl⟩
      · exact ⟨.calling e, ((h.exec e x hx).calling i).1 hpc, rfl⟩
    · rintro ⟨p, hp, hq⟩
      cases p <;> cases hq
      · obtain ⟨x, hx⟩ := hhome hp rfl
        exact ⟨x, hx, LoopPc.item?_eq_some.2 (.inl (((h.exec e x hx).popped i).2 hp))⟩
      · obtain ⟨x, hx⟩ := hhome hp rfl
        exact ⟨x, hx, LoopPc.item?_eq_some.2 (.inr (((h.exec e x hx).calling i).2 hp))⟩
  | finished =>
    constructor
    · intro hp
      exact ⟨.finished, hp, rfl⟩
    · rintro ⟨p, hp, hq⟩
      cases p <;> cases hq
      exact hp

/-- **An accepted item is in exactly one spot.** -/
theorem accepted_spot {s : State} (h : Inv s) {i : ItemId} (hi : Accepted s i) : ∃! q, At s i q := by
  obtain ⟨e, x, hx, hmem⟩ := hi
  have hE := h.exec e x hx
  have hsome : ∃ q, At s i q := by
    rw [hE.log] at hmem
    rcases List.mem_append.1 hmem with ht | hq
    · rcases hE.order i ht with hf | ⟨hf, -⟩
      · exact ⟨.finished, hf⟩
      · exact ⟨.hands e, x, hx, hf⟩
    · exact ⟨.queue e, x, hx, hq⟩
  obtain ⟨q, hq⟩ := hsome
  refine ⟨q, hq, fun r hr => ?_⟩
  obtain ⟨p, hp, hpq⟩ := (at_iff h).1 hq
  obtain ⟨p', hp', hpr⟩ := (at_iff h).1 hr
  rw [hp] at hp'
  cases hp'
  rw [hpq] at hpr
  exact (Option.some.inj hpr).symm

/-! ### A loop that has returned -/

/-- `e` has left `run_until_future`: broken, with nothing queued, and `log` all it was ever given. -/
def Gone (e : ExecutorId) (log : List ItemId) (s : State) : Prop :=
  ∃ x, s.execs e = some x ∧ x.pc = .returned ∧ x.workItems = [] ∧ x.broken = true ∧ x.appended = log

theorem Gone.setExec {s : State} {e f : ExecutorId} {log : List ItemId} (h : Gone e log s) {y : Executor}
    (hy : f = e → y.pc = .returned ∧ y.workItems = [] ∧ y.broken = true ∧ y.appended = log) :
    Gone e log (s.setExec f y) := by
  obtain ⟨x, hx, hrest⟩ := h
  by_cases hf : e = f
  · exact ⟨y, by simp [hf], hy hf.symm⟩
  · exact ⟨x, by simpa [hf] using hx, hrest⟩

theorem Gone.setItem {s : State} {e : ExecutorId} {log : List ItemId} (h : Gone e log s) (i : ItemId)
    (it : WorkItem) : Gone e log (s.setItem i it) := h

/-- Nothing moves an executor that has returned, and nothing is appended to it: the flag is up. -/
theorem gone_step {s s' : State} {a : Action} {e : ExecutorId} {log : List ItemId} (h : Gone e log s)
    (hs : step s a = some s') : Gone e log s' := by
  have hg := h
  obtain ⟨x, hx, hpc, hq, hb, hl⟩ := h
  have hsame : ∀ {f : ExecutorId} {z : Executor}, s.execs f = some z → f = e → z = x := by
    rintro f z hz rfl
    rw [hx] at hz
    exact (Option.some.inj hz).symm
  cases stepTo_of_step hs with
  | @create f _ _ hnone =>
    refine hg.setExec fun hf => ?_
    subst hf
    rw [hx] at hnone; cases hnone
  | enterRefused => exact hg
  | enterDone hz hzpc => exact hg.setExec fun hf => by rw [hsame hz hf, hpc] at hzpc; cases hzpc
  | enter hz hzpc => exact hg.setExec fun hf => by rw [hsame hz hf, hpc] at hzpc; cases hzpc
  | resolve hz => exact hg.setExec fun hf => by rw [hsame hz hf]; exact ⟨hpc, hq, hb, hl⟩
  | done hz =>
    refine hg.setExec fun hf => ?_
    rw [hsame hz hf]
    simp only [Executor.done, Executor.notify, hpc]
    exact ⟨trivial, hq, trivial, hl⟩
  | loopReturn hz hzpc => exact hg.setExec fun hf => by rw [hsame hz hf, hpc] at hzpc; simp at hzpc
  | loopWait hz hzpc => exact hg.setExec fun hf => by rw [hsame hz hf, hpc] at hzpc; simp at hzpc
  | loopPop hz hzpc =>
    exact (hg.setExec fun hf => by rw [hsame hz hf, hpc] at hzpc; simp at hzpc).setItem _ _
  | run hz hzpc =>
    unfold runItem
    split <;> exact hg.setExec fun hf => by rw [hsame hz hf, hpc] at hzpc; cases hzpc
  | complete hz hzpc =>
    unfold completeItem
    split <;> exact hg.setExec fun hf => by rw [hsame hz hf, hpc] at hzpc; cases hzpc
  | submitRefused => exact hg
  | submit => exact hg.setItem _ _
  | walkRejected => exact hg.setItem _ _
  | walkUp => exact hg.setItem _ _
  | walkAppend _ _ hz hzb =>
    exact (hg.setExec fun hf => by rw [hsame hz hf, hb] at hzb; cases hzb).setItem _ _
  | cancel => exact hg.setItem _ _

theorem returned_run {s s' : State} {as : List Action} (h : Inv s) {e : ExecutorId} {x : Executor}
    (hx : s.execs e = some x) (hpc : x.pc = .returned) (hrun : machine.run s as = some s') :
    Gone e x.appended s' :=
  machine.run_invariant (fun _ _ _ => gone_step)
    ⟨x, hx, hpc, ((h.exec e x hx).returned hpc).1, ((h.exec e x hx).returned hpc).2, rfl⟩ hrun

/-! ### Items that are not called -/

/-- The future of the item was cancelled. -/
def Cancelled (s : State) (i : ItemId) : Prop :=
  ∃ it, s.items i = some it ∧ (it.future = .cancelled ∨ it.future = .cancelledAndNotified)

theorem Cancelled.of_setItem {s : State} {i j : ItemId} {it : WorkItem} (h : Cancelled (s.setItem j it) i)
    (hit : i = j → it.future = .cancelled ∨ it.future = .cancelledAndNotified → Cancelled s i) :
    Cancelled s i := by
  obtain ⟨jt, hjt, hf⟩ := h
  rw [State.items_setItem] at hjt
  split at hjt
  · cases hjt
    exact hit ‹_› hf
  · exact ⟨jt, hjt, hf⟩

/-- Only `cancel` cancels the future of an item. -/
theorem cancelled_step {s s' : State} {a : Action} (hs : step s a = some s') {i : ItemId}
    (hc : Cancelled s' i) : a = .cancel i ∨ Cancelled s i := by
  have hkeep : ∀ {j : ItemId} {it jt : WorkItem}, s.items j = some it → jt.future = it.future → i = j →
      jt.future = .cancelled ∨ jt.future = .cancelledAndNotified → Cancelled s i := by
    rintro j it jt hit hf rfl hc
    exact ⟨it, hit, hf ▸ hc⟩
  cases stepTo_of_step hs with
  | create | enterRefused | enterDone | enter | resolve | done | loopReturn | loopWait | submitRefused =>
    exact Or.inr hc
  | loopPop _ _ _ hit => exact Or.inr (hc.of_setItem (hkeep hit rfl))
  | @run _ _ j it _ _ hit =>
    refine Or.inr ?_
    unfold runItem at hc
    split at hc <;> rename_i hset
    · exact hc
    · refine hc.of_setItem fun hij _ => ⟨it, by rw [hij]; exact hit, ?_⟩
      cases hf : it.future <;> rw [hf] at hset <;> simp [Future.setRunningOrNotifyCancel] at hset ⊢
    · refine hc.of_setItem fun _ hf => ?_
      cases hfut : it.future <;> rw [hfut] at hset <;> simp [Future.setRunningOrNotifyCancel] at hset
      simp [← hset] at hf
  | @complete _ _ j it r _ _ hit =>
    refine Or.inr ?_
    unfold completeItem at hc
    split at hc <;> rename_i hset
    · exact hc
    · refine hc.of_setItem fun _ hf => ?_
      cases hfut : it.future <;> rw [hfut] at hset <;> simp [Future.settle] at hset <;> simp [← hset] at hf
  | submit => exact Or.inr (hc.of_setItem fun _ hf => by simp at hf)
  | walkRejected hit => exact Or.inr (hc.of_setItem (hkeep hit rfl))
  | walkUp hit => exact Or.inr (hc.of_setItem (hkeep hit rfl))
  | walkAppend hit => exact Or.inr (hc.of_setItem (hkeep hit rfl))
  | @cancel j it hit =>
    by_cases hij : i = j
    · exact Or.inl (by rw [hij])
    · exact Or.inr (hc.of_setItem fun h => absurd h hij)

theorem cancel_mem {s s' : State} {as : List Action} (hrun : machine.run s as = some s') {i : ItemId}
    (hc : Cancelled s' i) : .cancel i ∈ as ∨ Cancelled s i := by
  induction as generalizing s with
  | nil => cases hrun; exact Or.inr hc
  | cons a as ih =>
    obtain ⟨t, ht, hrest⟩ := machine.run_cons_eq_some.1 hrun
    rcases ih hrest with h | h
    · exact Or.inl (List.mem_cons_of_mem _ h)
    · rcases cancelled_step ht h with rfl | h
      · exact Or.inl List.mem_cons_self
      · exact Or.inr h

/-! ### The whole -/

/-- **No work is lost, duplicated or stranded.**  In every state that a run from the beginning reaches: an
accepted item is in exactly one spot and at most once in a queue; its function is called at most once, and a
finished item was called unless it was cancelled before its turn; each executor takes its items in the order in
which they were appended, one after the other, and no exception ends its loop; and an executor whose
`run_until_future` has returned has an empty queue, now and after every further run. -/
theorem conservation_of_work {as : List Action} {s : State} (hrun : machine.run State.init as = some s) :
    (∀ i, Accepted s i → ∃! q, At s i q) ∧
    (∀ i it, s.items i = some it → it.calls ≤ 1 ∧
      (it.place = .finished → it.calls = 0 → it.future = .cancelledAndNotified ∧ .cancel i ∈ as)) ∧
    (∀ e x, s.execs e = some x →
      x.workItems.Nodup ∧ x.appended = x.taken ++ x.workItems ∧
      (∀ i ∈ x.taken, At s i .finished ∨ (x.pc.item? = some i ∧ x.taken.getLast? = some i)) ∧
      (∀ ex, x.pc ≠ .escaped ex) ∧
      (x.pc = .returned → ∀ bs s', machine.run s bs = some s' →
        ∃ x', s'.execs e = some x' ∧ x'.workItems = [] ∧ x'.appended = x.appended)) := by
  have h := inv_run inv_init hrun
  refine ⟨fun i hi => accepted_spot h hi, fun i it hit => ?_, fun e x hx => ?_⟩
  · have hok := h.item i it hit
    refine ⟨?_, fun hp hc => ?_⟩
    · unfold WorkItem.Ok at hok
      split at hok <;> omega
    · simp only [WorkItem.Ok, hp, hc] at hok
      have hf : it.future = .cancelledAndNotified := by simpa using hok
      refine ⟨hf, ?_⟩
      rcases cancel_mem hrun ⟨it, hit, Or.inr hf⟩ with hm | ⟨jt, hjt, -⟩
      · exact hm
      · cases hjt
  · have hE := h.exec e x hx
    refine ⟨hE.nodup, hE.log, hE.order, hE.escaped, fun hr bs s' hbs => ?_⟩
    obtain ⟨x', hx', -, hq, -, hl⟩ := returned_run h hx hr hbs
    exact ⟨x', hx', hq, hl⟩

/-- Thread 2 submits an item to an executor of thread 1, which runs it and returns. -/
def submitAndRun : List Action :=
  [.create 0 1 none, .enter 0 1, .submit 7 2 0, .loop 0, .walk 7, .loop 0, .run 0, .complete 0 (.ok ()), .resolve 0,
    .done 0, .loop 0]

theorem conservation_of_work_submitAndRun : ∃ s, machine.run State.init submitAndRun = some s ∧
    Accepted s 7 ∧ (∃! q, At s 7 q) ∧ ∃ x, s.execs 0 = some x ∧ x.pc = .returned ∧ x.appended = [7] ∧
      ∀ bs s', machine.run s bs = some s' → ∃ x', s'.execs 0 = some x' ∧ x'.workItems = [] ∧ x'.appended = [7] := by
  have hwork := @conservation_of_work submitAndRun _ rfl
  exact ⟨_, rfl, ⟨0, _, rfl, .head _⟩, hwork.1 7 ⟨0, _, rfl, .head _⟩, _, rfl, rfl, rfl,
    fun bs s' h => (hwork.2.2 0 _ rfl).2.2.2.2 rfl bs s' h⟩

end Asgiref.CurrentThreadExecutor
