import Asgiref.Lib.Inevitable
import Asgiref.SyncToAsync.CancelledSteps

/-!
# A cancelled `SyncToAsync` call comes to its end

* `Awake` — who is awaited is in the queue, and so is who awaits what is done;
* `Closing` — the nested task is done, and the function has ended;
* `Closing.goesOn`, `Closing.step` — then the loop goes on, and each of its steps makes `rank` smaller.
-/

namespace Asgiref.SyncToAsync

open Asgiref.Python Asgiref.Lib
open AsyncToSync (Call TaskPc)

variable {U R V : Type} {k : Call U}

/-- Who is awaited is in the queue, and so is who awaits what is done. -/
structure Awake (s : State U R V) : Prop where
  task : s.parent = .awaitingTask → TaskDone s → s.ready.countP Handle.isWake = 1
  exec : s.parent = .awaitingExec → s.execCoro = .pending ∧ s.ready.countP Handle.isWake = 0 ∨
    s.execCoro.done = true ∧ s.ready.countP Handle.isWake = 1
  posted : s.posted.isSome = true → s.execCoro = .pending → ∃ r, Handle.setState r ∈ s.ready

/-- A step that wakes nobody, and loses no result. -/
theorem Awake.queue {s s' : State U R V} (h : Awake s) (hparent : s'.parent = s.parent) (hexec : s'.execCoro = s.execCoro)
    (hready : s'.ready.countP Handle.isWake = s.ready.countP Handle.isWake) (hdone : TaskDone s' → TaskDone s)
    (hposted : s'.posted.isSome = true → (∃ r, Handle.setState r ∈ s'.ready) ∨ s.posted.isSome = true ∧
      ∀ r, Handle.setState r ∈ s.ready → Handle.setState r ∈ s'.ready) : Awake s' where
  task hp hd := by
    rw [hready]
    exact h.task (hparent ▸ hp) (hdone hd)
  exec hp := by
    rw [hready, hexec]
    exact h.exec (hparent ▸ hp)
  posted hs hx := by
    obtain hin | ⟨hs, hkeep⟩ := hposted hs
    · exact hin
    · obtain ⟨r, hr⟩ := h.posted hs (hexec ▸ hx)
      exact ⟨r, hkeep r hr⟩

theorem mem_tail_of_setState {l rest : List (Handle V)} {x : Handle V} {r : Result V} (hl : l = x :: rest)
    (hx : x.isPost = false) (h : Handle.setState r ∈ l) : Handle.setState r ∈ rest := by
  rw [hl] at h
  rcases List.mem_cons.1 h with rfl | h
  · cases hx
  · exact h

theorem awake_afterTask {s : State U R V} {rest : List (Handle V)} {b : Bool} (hb : Base k s) (h : Awake s)
    (hr : s.ready = .wakeParent :: rest) (hwake : b = false → s.ready.countP Handle.isWake = 1) :
    Awake (afterTask { s with ready := rest } b) := by
  have hposted : s.posted.isSome = true → s.execCoro = .pending → ∃ r, Handle.setState r ∈ rest := fun hs hx =>
    (h.posted hs hx).imp fun r hm => mem_tail_of_setState hr rfl hm
  unfold afterTask
  split
  · exact ⟨nofun, nofun, hposted⟩
  · rename_i hd
    split
    · exact ⟨nofun, nofun, fun _ hx => absurd hx (Future.cancel_ne_pending _)⟩
    · rename_i hfalse
      have hpending : s.execCoro = .pending := by
        by_contra hne
        exact hd (Future.done_of_ne hne hb.execCoro)
      have hcount := hwake (by simpa using hfalse)
      rw [hr, List.countP_cons] at hcount
      exact ⟨nofun, fun _ => .inl ⟨hpending, by simpa [Handle.isWake] using hcount⟩, hposted⟩

theorem awake_setState {s : State U R V} {rest : List (Handle V)} {r : Result V} (h : Awake s)
    (hr : s.ready = .setState r :: rest) : Awake (setState { s with ready := rest } r) := by
  have hcount := countP_wake_tail hr rfl
  unfold setState
  split
  · next hpending =>
    refine ⟨fun hp hd => ?_, fun hp => .inr ⟨rfl, ?_⟩, nofun⟩
    · have hno : s.parent.isAwaitingExec = false := by rw [show s.parent = .awaitingTask from hp]; rfl
      simp only [hno, wakeIf]
      simpa [hcount] using h.task hp hd
    · have hyes : s.parent.isAwaitingExec = true := by rw [show s.parent = .awaitingExec from hp]; rfl
      have hzero : s.ready.countP Handle.isWake = 0 := by
        rcases h.exec hp with ⟨-, hzero⟩ | ⟨hd, -⟩
        · exact hzero
        · rw [show s.execCoro = .pending from hpending] at hd
          cases hd
      simp only [hyes, wakeIf]
      simp [hcount, hzero, Handle.isWake]
  · next hne =>
    refine ⟨fun hp hd => hcount.trans (h.task hp hd), fun hp => ?_, fun _ hx => absurd hx hne⟩
    rw [show rest.countP Handle.isWake = _ from hcount]
    exact h.exec hp

theorem awake_endStep {s : State U R V} {c : AsyncToSync.State U R} (hb : Base k s) (h : Awake s) (hin : s.inStep = true) :
    Awake (endStep s c) := by
  have hplace := hb.place
  rw [hin] at hplace
  have hnot := not_taskDone_of_place hplace
  have hnone : s.parent ≠ .awaitingExec := fun hp => hnot (hb.done (by rw [hp]; rfl))
  unfold endStep
  split
  · rename_i hm
    exact ⟨fun _ hd => absurd hd (not_taskDone_of_suspended hm), fun hp => absurd hp hnone, h.posted⟩
  · refine ⟨fun hp _ => ?_, fun hp => absurd hp hnone, fun hs hx => ?_⟩
    · have hyes : s.parent.isAwaitingTask = true := by rw [show s.parent = .awaitingTask from hp]; rfl
      simp only [hyes, wakeIf]
      simp [hb.second hp hnot, Handle.isWake]
    · exact (h.posted hs hx).imp fun r hm => List.mem_append_left _ hm
  · rename_i hd
    exact ⟨fun _ hdone => hdone.elim fun out ho => absurd ho (hd out), fun hp => absurd hp hnone, h.posted⟩

theorem awake_step {s s' : State U R V} {a : Action U R V} (hb : Base k s) (h : Awake s)
    (hstep : (machine k).step s a = some s') : Awake s' := by
  cases stepTo_of_step hb.place hstep with
  | cancelTask hr =>
    exact ⟨fun _ hd => absurd hd (not_taskDone_of_suspended rfl), nofun, fun hs hx =>
      (h.posted hs hx).imp fun r hm => mem_tail_of_setState hr rfl hm⟩
  | noTask hr => exact awake_afterTask hb h hr nofun
  | taskDone hr hp hd => exact awake_afterTask hb h hr fun _ => h.task hp hd
  | result hr => exact ⟨nofun, nofun, fun hs hx => (h.posted hs hx).imp fun r hm => mem_tail_of_setState hr rfl hm⟩
  | noResult hr => exact ⟨nofun, nofun, fun hs hx => (h.posted hs hx).imp fun r hm => mem_tail_of_setState hr rfl hm⟩
  | resume hr hpc =>
    refine ⟨fun _ ⟨_, ho⟩ => absurd ho nofun, fun hp => ?_, fun hs hx =>
      (h.posted hs hx).imp fun r hm => mem_tail_of_setState hr rfl hm⟩
    exact absurd (hb.done (by rw [show s.parent = .awaitingExec from hp]; rfl)) (not_taskDone_of_suspended hpc)
  | stale hr =>
    exact h.queue rfl rfl (countP_wake_tail hr rfl) id fun hs => .inr ⟨hs, fun r hm => mem_tail_of_setState hr rfl hm⟩
  | setState hr => exact awake_setState h hr
  | other hr =>
    exact h.queue rfl rfl (countP_wake_tail hr rfl) id fun hs => .inr ⟨hs, fun r hm => mem_tail_of_setState hr rfl hm⟩
  | wakeTask | callSoon =>
    exact h.queue rfl rfl (countP_wake_append _ rfl) id fun hs => .inr ⟨hs, fun r hm => List.mem_append_left _ hm⟩
  | task hin => exact awake_endStep hb h hin
  | worker ha hc =>
    obtain ⟨hpc, -, -⟩ := caller_frame ha hc
    exact h.queue rfl rfl rfl (fun ⟨out, ho⟩ => ⟨out, hpc ▸ ho⟩) fun hs => .inr ⟨hs, fun r hm => hm⟩
  | @finish r hp =>
    obtain ⟨-, -, hready, hposted, -, hexec⟩ := finish_frame (k := k) s r
    refine ⟨fun hp' => ?_, fun hp' => ?_, by rw [hready, hposted, hexec]; exact h.posted⟩
    · obtain hended | ⟨e, hended⟩ := finish_parent (k := k) s r <;> rw [hended] at hp' <;> cases hp'
    · obtain hended | ⟨e, hended⟩ := finish_parent (k := k) s r <;> rw [hended] at hp' <;> cases hp'
  | write => exact h.queue rfl rfl rfl id fun hs => .inr ⟨hs, fun r hm => hm⟩
  | post =>
    exact h.queue rfl rfl (countP_wake_append _ rfl) id fun _ => .inl ⟨_, List.mem_append_right _ (.head _)⟩

/-- The steps of the loop itself. -/
def Action.ofLoop : Action U R V → Bool
  | .run | .finish => true
  | _ => false

/-- The nested task is done, and the function has ended. -/
structure Closing (k : Call U) (s : State U R V) : Prop where
  base : Base k s
  awake : Awake s
  done : TaskDone s
  posted : s.posted.isSome = true

theorem Closing.place {s : State U R V} (h : Closing k s) :
    s.inStep = false ∧ s.call.taskPc = .done (.ok ()) ∧ s.call.taskContext = some [] := by
  have hplace := h.base.place
  cases hin : s.inStep with
  | true =>
    rw [hin] at hplace
    exact absurd h.done (not_taskDone_of_place hplace)
  | false =>
    rw [hin] at hplace
    rcases hplace with ⟨⟨m, hm⟩, -⟩ | hplace
    · exact absurd h.done (not_taskDone_of_suspended hm)
    · exact ⟨rfl, hplace⟩

/-- While the coroutine awaits something, the queue is not empty. -/
theorem Closing.ready_ne_nil {s : State U R V} (h : Closing k s) (hl : s.parent.isLeaving = false)
    (he : ∀ o, s.parent ≠ .ended o) : s.ready ≠ [] := by
  intro hnil
  cases hp : s.parent with
  | cancelled =>
    have hcount := h.base.first hp
    rw [hnil] at hcount
    cases hcount
  | awaitingTask =>
    have hcount := h.awake.task hp h.done
    rw [hnil] at hcount
    cases hcount
  | awaitingExec =>
    rcases h.awake.exec hp with ⟨hpending, -⟩ | ⟨-, hcount⟩
    · obtain ⟨r, hr⟩ := h.awake.posted h.posted hpending
      rw [hnil] at hr
      cases hr
    · rw [hnil] at hcount
      cases hcount
  | leaving r =>
    rw [hp] at hl
    cases hl
  | ended o => exact he o hp

/-- The loop can run the handle at the head of its queue. -/
theorem Closing.exists_runHandle {s : State U R V} (h : Closing k s) (hl : s.parent.isLeaving = false)
    (he : ∀ o, s.parent ≠ .ended o) {x : Handle V} {rest : List (Handle V)} (hr : s.ready = x :: rest) :
    ∃ s', runHandle k { s with ready := rest } x = some s' := by
  obtain ⟨-, hpc, hlist⟩ := h.place
  cases x with
  | wakeParent =>
    cases hp : s.parent with
    | cancelled => exact ⟨_, by simp only [runHandle, parentStep, hlist]; rfl⟩
    | awaitingTask => exact ⟨_, by simp only [runHandle, parentStep, hpc]; rfl⟩
    | awaitingExec =>
      have hdone : s.execCoro.done = true := by
        rcases h.awake.exec hp with ⟨-, hzero⟩ | ⟨hdone, -⟩
        · rw [hr, List.countP_cons] at hzero
          simp [Handle.isWake] at hzero
        · exact hdone
      cases hx : s.execCoro with
      | finished | cancelled | cancelledAndNotified => exact ⟨_, rfl⟩
      | pending => rw [hx] at hdone; cases hdone
      | running => exact absurd hx h.base.execCoro
    | leaving r => rw [hp] at hl; cases hl
    | ended o => exact absurd hp (he o)
  | stepTask => exact ⟨_, by simp only [runHandle, hpc]; rfl⟩
  | setState r => exact ⟨_, rfl⟩
  | other => exact ⟨_, rfl⟩

theorem Closing.goesOn {s : State U R V} (h : Closing k s) :
    (∃ o, s.parent = .ended o) ∨ ∃ (a : Action U R V) (t : State U R V), a.ofLoop = true ∧ (machine k).step s a = some t := by
  by_cases he : ∃ o, s.parent = .ended o
  · exact .inl he
  · refine .inr ?_
    have he : ∀ o, s.parent ≠ .ended o := fun o ho => he ⟨o, ho⟩
    cases hl : s.parent.isLeaving with
    | true =>
      cases hp : s.parent with
      | leaving r => exact ⟨.finish, _, rfl, by simp only [machine, step, hp]; rfl⟩
      | _ => rw [hp] at hl; cases hl
    | false =>
      obtain ⟨x, rest, hr⟩ := List.exists_cons_of_ne_nil (h.ready_ne_nil hl he)
      obtain ⟨s', hs'⟩ := h.exists_runHandle hl he hr
      have hidle : (s.inStep || s.parent.isLeaving) = false := by rw [h.place.1, hl, Bool.or_self]
      refine ⟨.run, s', rfl, ?_⟩
      simp only [machine, step, hidle, hr]
      exact hs'

/-- How far the coroutine is from its end. -/
def ParentPc.rank : ParentPc V → Nat
  | .cancelled | .awaitingTask => 3
  | .awaitingExec => 2
  | .leaving _ => 1
  | .ended _ => 0

@[simp] theorem rank_leaving (r : Result V) : (ParentPc.leaving r).rank = 1 := rfl
@[simp] theorem rank_awaitingExec : (ParentPc.awaitingExec : ParentPc V).rank = 2 := rfl

/-- What the loop has to do until the call ends. -/
def rank (s : State U R V) : Nat := s.ready.length + (if s.execCoro.done then 0 else 2) + s.parent.rank

theorem rank_afterTask {s : State U R V} {x : Handle V} {rest : List (Handle V)} (hr : s.ready = x :: rest)
    (hp : s.parent.rank = 3) (b : Bool) : rank (afterTask { s with ready := rest } b) < rank s := by
  unfold afterTask
  split
  · next hd =>
    simp only [rank, hr, hp, List.length_cons, rank_leaving]
    omega
  · next hd =>
    have hnot : s.execCoro.done = false := by simpa using hd
    split
    · simp only [rank, hr, hp, hnot, List.length_cons, rank_leaving, Bool.false_eq_true, if_false]
      split <;> omega
    · simp only [rank, hr, hp, List.length_cons, rank_awaitingExec]
      omega

theorem rank_setState {s : State U R V} {x : Handle V} {rest : List (Handle V)} (hr : s.ready = x :: rest)
    (r : Result V) : rank (setState { s with ready := rest } r) < rank s := by
  have hwake : (wakeIf (V := V) s.parent.isAwaitingExec).length ≤ 1 := by
    unfold wakeIf
    split <;> simp
  unfold setState
  split
  · next hpending =>
    have hnot : s.execCoro.done = false := by
      rw [show s.execCoro = .pending from hpending]
      rfl
    simp only [rank, hr, hnot, List.length_append, List.length_cons, Future.done_finished, if_true, Bool.false_eq_true,
      if_false]
    omega
  · simp only [rank, hr, List.length_cons]
    omega

/-- Every step of the loop brings the call closer to its end. -/
theorem Closing.step {s s' : State U R V} {a : Action U R V} (h : Closing k s) (ha : a.ofLoop = true)
    (hstep : (machine k).step s a = some s') : Closing k s' ∧ rank s' < rank s := by
  have hb' := base_step h.base hstep
  have ha' := awake_step h.base h.awake hstep
  obtain ⟨hin, hpc, hlist⟩ := h.place
  have hnot : ∀ m, s.call.taskPc ≠ .suspended m := by
    intro m hm
    rw [hm] at hpc
    cases hpc
  cases stepTo_of_step h.base.place hstep with
  | cancelTask _ _ hm => exact absurd hm (hnot _)
  | resume _ hm => exact absurd hm (hnot _)
  | @noTask rest hr hp =>
    obtain ⟨hcall, -, -, hposted, -⟩ := afterTask_frame { s with ready := rest } true
    exact ⟨⟨hb', ha', by unfold TaskDone; rw [hcall]; exact h.done, by rw [hposted]; exact h.posted⟩,
      rank_afterTask hr (by rw [hp]; rfl) true⟩
  | @taskDone rest hr hp =>
    obtain ⟨hcall, -, -, hposted, -⟩ := afterTask_frame { s with ready := rest } false
    exact ⟨⟨hb', ha', by unfold TaskDone; rw [hcall]; exact h.done, by rw [hposted]; exact h.posted⟩,
      rank_afterTask hr (by rw [hp]; rfl) false⟩
  | result hr hp =>
    refine ⟨⟨hb', ha', h.done, h.posted⟩, ?_⟩
    simp only [rank, hr, hp, ParentPc.rank, List.length_cons]
    omega
  | noResult hr hp =>
    refine ⟨⟨hb', ha', h.done, h.posted⟩, ?_⟩
    simp only [rank, hr, hp, ParentPc.rank, List.length_cons]
    omega
  | stale hr =>
    refine ⟨⟨hb', ha', h.done, h.posted⟩, ?_⟩
    simp only [rank, hr, List.length_cons]
    omega
  | other hr =>
    refine ⟨⟨hb', ha', h.done, h.posted⟩, ?_⟩
    simp only [rank, hr, List.length_cons]
    omega
  | @setState rest r hr =>
    refine ⟨⟨hb', ha', ?_, ?_⟩, rank_setState hr r⟩
    · unfold Asgiref.SyncToAsync.setState
      split <;> exact h.done
    · unfold Asgiref.SyncToAsync.setState
      split <;> exact h.posted
  | @finish r hp =>
    obtain ⟨hcall, -, hready, hposted, -, hexec⟩ := finish_frame (k := k) s r
    refine ⟨⟨hb', ha', by unfold TaskDone; rw [hcall]; exact h.done, by rw [hposted]; exact h.posted⟩, ?_⟩
    have hended : (Asgiref.SyncToAsync.finish k s r).parent.rank = 0 := by
      obtain hended | ⟨e, hended⟩ := finish_parent (k := k) s r <;> rw [hended] <;> rfl
    simp only [rank, hready, hexec, hended, hp, rank_leaving]
    omega
  | _ => cases ha

theorem awake_of_cancelled {s : State U R V} (h : Cancelled k s) : Awake s := by
  refine ⟨fun hp => ?_, fun hp => ?_, fun hs => ?_⟩
  · rw [h.parent] at hp
    cases hp
  · rw [h.parent] at hp
    cases hp
  · rw [h.posted] at hs
    cases hs

end Asgiref.SyncToAsync
