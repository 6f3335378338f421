import Asgiref.SyncToAsync.CancelledEnd

/-!
# What a cancelled `SyncToAsync` call ends with

The handler tests `exec_coro.done()` after `await task`.  The result of the function is posted to the same queue
as the wake-up of the handler, and main_wrap resolves `call_result` before its task is done: the worker can post
before the wake-up is put into the queue, and then the test is true and the result dropped.

* `Returns` — the condition on the steps: the worker posts after the nested task is done, and no comparison raises in
  the `finally` block;
* `InTime` — what every step that meets the condition keeps; `Overtaken` — what one that does not leaves for ever;
* `cancelled_call_returns` — the call ends, and it returns the value of the function exactly if every step has met the
  condition;
* `value_dropped` — a schedule in which the value is dropped.
-/

namespace Asgiref.SyncToAsync

open Asgiref.Python Asgiref.Lib
open AsyncToSync (Call TaskPc)

variable {U R V : Type} {k : Call U}

/-- The worker posts the result after the nested task is done. -/
def LatePost (s : State U R V) (a : Action U R V) : Prop := ∀ r, a = .post r → TaskDone s

/-- No comparison raises where the `finally` block copies the context of the function back. -/
def QuietFinish (k : Call U) (s : State U R V) (a : Action U R V) : Prop :=
  a = .finish → s.ownContext = false → ¬ Sync.Raises k.vars s.call.callerCtx s.ctx

/-- The condition on the steps. -/
def Returns (k : Call U) (s : State U R V) (a : Action U R V) : Prop := LatePost s a ∧ QuietFinish k s a

/-- What every step keeps that meets the condition. -/
structure InTime (s : State U R V) : Prop where
  early : ¬ TaskDone s → s.posted = none ∧ s.execCoro = .pending ∧ ∀ h ∈ s.ready, ¬ h.isPost
  /-- The wake-up of the parent is in the queue before the result. -/
  leads : s.parent = .awaitingTask → TaskDone s → s.execCoro = .pending ∧ Leads (·.isWake) (·.isPost) s.ready
  ready : ∀ r, Handle.setState r ∈ s.ready → s.posted = some r
  finished : ∀ r, s.execCoro = .finished r → s.posted = some r
  uncancelled : s.parent = .awaitingExec → s.execCoro = .pending ∨ ∃ r, s.execCoro = .finished r
  unsent : s.parent = .cancelled → s.cancelSent = false
  ended : ∀ o, s.parent = .leaving o ∨ s.parent = .ended o → s.cancelSent = true → s.posted = some o

/-- What a post that came too early leaves for ever. -/
structure Overtaken (s : State U R V) : Prop where
  posted : s.posted.isSome
  first : s.parent = .cancelled → s.execCoro.done = true ∨ ∃ h ∈ s.ready, h.isPost
  /-- The result is in the queue before the wake-up of the parent. -/
  second : s.parent = .awaitingTask → s.execCoro.done = true ∨ Leads (·.isPost) (·.isWake) s.ready
  third : s.parent ≠ .awaitingExec
  ended : ∀ o, s.parent = .leaving o ∨ s.parent = .ended o → ∀ v, o ≠ .ok v

/-! ### Steps that meet the condition -/

theorem finish_of_quiet {s : State U R V} (h : QuietFinish k s .finish) (r : Result V) :
    (finish k s r).parent = .ended r := by
  unfold finish
  split
  · rfl
  · next heq =>
    split at heq
    · cases heq
    · next hown =>
      have hnone := Sync.restoreContext_snd_eq_none (t := k.loopThread).2 (h rfl (by simpa using hown))
      rw [heq] at hnone
      cases hnone

theorem finish_of_not_quiet {s : State U R V} (h : ¬ QuietFinish k s .finish) (r : Result V) :
    ∃ e, (finish k s r).parent = .ended (.error e) := by
  unfold QuietFinish at h
  push Not at h
  obtain ⟨-, hown, hraise⟩ := h
  unfold finish
  split
  · next heq =>
    rw [hown] at heq
    have hnone : (Sync.restoreContext k.vars k.loopThread s.call.callerCtx s.ctx).2 = none := by
      simp only [Bool.false_eq_true, if_false] at heq
      rw [heq]
    exact absurd hraise (Sync.restoreContext_snd_eq_none.1 hnone)
  · exact ⟨_, rfl⟩

/-- A step that puts handles into the queue which neither wake the parent nor carry a result. -/
theorem InTime.queue {s : State U R V} (h : InTime s) {x : Handle V} (hx : x.isPost = false) :
    InTime { s with ready := s.ready ++ [x] } where
  early hn := by
    refine ⟨(h.early hn).1, (h.early hn).2.1, fun y hy => ?_⟩
    rcases List.mem_append.1 hy with hy | hy
    · exact (h.early hn).2.2 y hy
    · rw [List.mem_singleton.1 hy, hx]
      exact Bool.false_ne_true
  leads hp hd := ⟨(h.leads hp hd).1, leads_append (h.leads hp hd).2 _⟩
  ready r hr := by
    rcases List.mem_append.1 hr with hr | hr
    · exact h.ready r hr
    · rw [← List.mem_singleton.1 hr] at hx
      cases hx
  finished := h.finished
  uncancelled := h.uncancelled
  unsent := h.unsent
  ended := h.ended

/-- Serving a handle that neither wakes the parent nor carries a result. -/
theorem InTime.serve {s : State U R V} (h : InTime s) {x : Handle V} {rest : List (Handle V)}
    (hr : s.ready = x :: rest) (hx : x.isWake = false) : InTime { s with ready := rest } where
  early hn := ⟨(h.early hn).1, (h.early hn).2.1, fun y hy => (h.early hn).2.2 y (by rw [hr]; exact .tail _ hy)⟩
  leads hp hd := by
    obtain ⟨he, hl⟩ := h.leads hp hd
    rw [hr] at hl
    exact ⟨he, (leads_tail hl (by simp [hx])).2⟩
  ready r hm := h.ready r (by rw [hr]; exact .tail _ hm)
  finished := h.finished
  uncancelled := h.uncancelled
  unsent := h.unsent
  ended := h.ended

theorem inTime_setState {s : State U R V} {rest : List (Handle V)} {r : Result V} (h : InTime s)
    (hr : s.ready = .setState r :: rest) : InTime (setState { s with ready := rest } r) := by
  have hmem : Handle.setState r ∈ s.ready := by rw [hr]; exact .head _
  have hdone : TaskDone s := by
    by_contra hn
    exact (h.early hn).2.2 _ hmem rfl
  have hnot : s.parent ≠ .awaitingTask := by
    intro hp
    have hl := (h.leads hp hdone).2
    rw [hr] at hl
    exact (leads_tail hl Bool.false_ne_true).1 rfl
  have hserve := h.serve hr rfl
  unfold setState
  split
  · refine ⟨fun hn => absurd hdone hn, fun hp => absurd hp hnot, fun r' hm => ?_, fun r' hf => ?_, fun _ => Or.inr ⟨r, rfl⟩,
      h.unsent, h.ended⟩
    · rcases List.mem_append.1 hm with hm | hm
      · exact hserve.ready r' hm
      · unfold wakeIf at hm
        split at hm <;> simp at hm
    · cases hf
      exact h.ready r hmem
  · exact hserve

theorem inTime_endStep {s : State U R V} {c : AsyncToSync.State U R} (h : InTime s) (hb : Base k s)
    (hin : s.inStep = true) : InTime (endStep s c) := by
  have hplace := hb.place
  rw [hin] at hplace
  have hnot := not_taskDone_of_place hplace
  obtain ⟨hposted, hexec, hqueue⟩ := h.early hnot
  unfold endStep
  split
  · rename_i hm
    exact ⟨fun _ => ⟨hposted, hexec, hqueue⟩, fun _ hd => absurd hd (not_taskDone_of_suspended hm), h.ready, h.finished,
      h.uncancelled, h.unsent, h.ended⟩
  · rename_i hm
    refine ⟨fun hn => absurd ⟨_, hm⟩ hn, fun hp _ => ⟨hexec, ?_⟩, fun r hr => ?_, h.finished, h.uncancelled, h.unsent,
      h.ended⟩
    · -- the wake-up joins a queue without a result
      rw [show s.parent.isAwaitingTask = true by rw [show s.parent = .awaitingTask from hp]; rfl]
      exact leads_snoc hqueue rfl
    · rcases List.mem_append.1 hr with hr | hr
      · exact h.ready r hr
      · unfold wakeIf at hr
        split at hr <;> simp at hr
  · rename_i hd
    exact ⟨fun _ => ⟨hposted, hexec, hqueue⟩, fun _ ⟨out, ho⟩ => absurd ho (hd out), h.ready, h.finished,
      h.uncancelled, h.unsent, h.ended⟩

theorem inTime_step {s s' : State U R V} {a : Action U R V} (hb : Base k s) (h : InTime s) (hmeets : Returns k s a)
    (hstep : (machine k).step s a = some s') : InTime s' := by
  cases stepTo_of_step hb.place hstep with
  | cancelTask hr hp hpc =>
    obtain ⟨hposted, hexec, hqueue⟩ := h.early (not_taskDone_of_suspended hpc)
    exact ⟨fun _ => ⟨hposted, hexec, fun y hy => hqueue y (by rw [hr]; exact .tail _ hy)⟩,
      fun _ hd => absurd hd (not_taskDone_of_suspended rfl), fun r hm => h.ready r (by rw [hr]; exact .tail _ hm),
      h.finished, nofun, nofun, nofun⟩
  | @noTask rest hr hp hd =>
    have hunsent := h.unsent hp
    have hready : ∀ r, Handle.setState r ∈ rest → s.posted = some r := fun r hm =>
      h.ready r (by rw [hr]; exact .tail _ hm)
    unfold afterTask
    split
    · exact ⟨fun hn => absurd hd hn, nofun, hready, h.finished, nofun, nofun, fun _ _ hc => by rw [hunsent] at hc; cases hc⟩
    · exact ⟨fun hn => absurd hd hn, nofun, hready, fun r hf => h.finished r (Future.cancel_eq_finished.1 hf), nofun, nofun,
        fun _ _ hc => by rw [hunsent] at hc; cases hc⟩
  | @taskDone rest hr hp hd =>
    have hexec := (h.leads hp hd).1
    unfold afterTask
    rw [if_neg (by simp [hexec]), if_neg (by simp)]
    exact ⟨fun hn => absurd hd hn, nofun, fun r hm => h.ready r (by rw [hr]; exact .tail _ hm), h.finished,
      fun _ => Or.inl hexec, nofun, nofun⟩
  | result hr hp hf =>
    have hd := hb.done (by rw [hp]; rfl)
    refine ⟨fun hn => absurd hd hn, nofun, fun r hm => h.ready r (by rw [hr]; exact .tail _ hm), h.finished, nofun, nofun,
      fun o ho _ => ?_⟩
    obtain ho | ho := ho <;> cases ho
    exact h.finished _ hf
  | noResult hr hp hc =>
    rcases h.uncancelled hp with hx | ⟨r, hx⟩ <;> rw [hx] at hc <;> rcases hc with hc | hc <;> cases hc
  | resume hr hpc =>
    have hserve := h.serve hr rfl
    have hnot := not_taskDone_of_suspended hpc
    exact ⟨fun _ => hserve.early hnot, fun _ ⟨_, ho⟩ => absurd ho nofun, hserve.ready, h.finished, h.uncancelled,
      h.unsent, h.ended⟩
  | stale hr => exact h.serve hr rfl
  | setState hr => exact inTime_setState h hr
  | other hr => exact h.serve hr rfl
  | wakeTask => exact h.queue rfl
  | callSoon => exact h.queue rfl
  | task hin ha hc => exact inTime_endStep h hb hin
  | worker ha hc =>
    obtain ⟨hpc, -, -⟩ := caller_frame ha hc
    refine ⟨?_, ?_, h.ready, h.finished, h.uncancelled, h.unsent, h.ended⟩
    · unfold TaskDone
      rw [hpc]
      exact h.early
    · unfold TaskDone
      rw [hpc]
      exact h.leads
  | @finish r hp =>
    obtain ⟨hcall, -, hready, hposted, hsent, hexec⟩ := finish_frame (k := k) s r
    have hd := hb.done (by rw [hp]; rfl)
    have hended := finish_of_quiet hmeets.2 r
    refine ⟨fun hn => absurd ?_ hn, by rw [hended]; exact nofun, by rw [hready, hposted]; exact h.ready,
      by rw [hexec, hposted]; exact h.finished, by rw [hended]; exact nofun, by rw [hended]; exact nofun, fun o ho hc => ?_⟩
    · unfold TaskDone
      rw [hcall]
      exact hd
    · rw [hended] at ho
      rw [hsent] at hc
      obtain ho | ho := ho <;> cases ho
      rw [hposted]
      exact h.ended r (.inl hp) hc
  | write => exact ⟨h.early, h.leads, h.ready, h.finished, h.uncancelled, h.unsent, h.ended⟩
  | @post r hnone =>
    have hd := hmeets.1 r rfl
    refine ⟨fun hn => absurd hd hn, fun hp _ => ⟨(h.leads hp hd).1, leads_append (h.leads hp hd).2 _⟩, fun r' hm => ?_,
      fun r' hf => ?_, h.uncancelled, h.unsent, fun o ho hc => ?_⟩
    · rcases List.mem_append.1 hm with hm | hm
      · cases (h.ready r' hm).symm.trans hnone
      · cases List.mem_singleton.1 hm; rfl
    · cases (h.finished r' hf).symm.trans hnone
    · cases (h.ended o ho hc).symm.trans hnone

/-! ### A post that comes too early -/

theorem overtaken_of_early_post {s s' : State U R V} {a : Action U R V} (hb : Base k s)
    (hearly : ¬ LatePost s a) (hstep : (machine k).step s a = some s') : Overtaken s' := by
  unfold LatePost at hearly
  push Not at hearly
  obtain ⟨r, rfl, hnot⟩ := hearly
  have hto : StepTo k s (.post r) s' := stepTo_of_step hb.place hstep
  cases hto with
  | post =>
    refine ⟨rfl, fun _ => Or.inr ⟨.setState r, by simp, rfl⟩, fun hp => Or.inr (leads_snoc (fun y hy => ?_) rfl),
      fun hp => hnot (hb.done ?_), fun o ho => absurd (hb.done ?_) hnot⟩
    rotate_left
    · rw [show s.parent = .awaitingExec from hp]
      rfl
    · rcases ho with ho | ho <;> rw [show s.parent = _ from ho] <;> rfl
    have hcount := List.countP_eq_zero.1 (hb.second hp hnot)
    exact hcount y hy

/-- A step that leaves the parent where it is, and loses no result. -/
theorem Overtaken.frame {s s' : State U R V} (h : Overtaken s) (hposted : s'.posted = s.posted)
    (hparent : s'.parent = s.parent) (hexec : s.execCoro.done = true → s'.execCoro.done = true)
    (hfirst : (∃ x ∈ s.ready, x.isPost) → s'.execCoro.done = true ∨ ∃ x ∈ s'.ready, x.isPost)
    (hsecond : Leads (·.isPost) (·.isWake) s.ready → s'.execCoro.done = true ∨ Leads (·.isPost) (·.isWake) s'.ready) :
    Overtaken s' where
  posted := by rw [hposted]; exact h.posted
  first hp := by
    rw [hparent] at hp
    exact (h.first hp).elim (fun hd => Or.inl (hexec hd)) hfirst
  second hp := by
    rw [hparent] at hp
    exact (h.second hp).elim (fun hd => Or.inl (hexec hd)) hsecond
  third := by rw [hparent]; exact h.third
  ended := by rw [hparent]; exact h.ended

/-- Handles join the queue. -/
theorem Overtaken.queue {s s' : State U R V} (h : Overtaken s) (l : List (Handle V)) (hposted : s'.posted = s.posted)
    (hparent : s'.parent = s.parent) (hexec : s'.execCoro = s.execCoro) (hready : s'.ready = s.ready ++ l) :
    Overtaken s' :=
  h.frame hposted hparent (by rw [hexec]; exact id)
    (fun ⟨x, hx, hp⟩ => Or.inr ⟨x, by rw [hready]; exact List.mem_append_left _ hx, hp⟩)
    (fun hl => Or.inr (by rw [hready]; exact leads_append hl l))

/-- Serving a handle that carries no result. -/
theorem Overtaken.serve {s s' : State U R V} (h : Overtaken s) {x : Handle V} (hr : s.ready = x :: s'.ready)
    (hx : x.isPost = false) (hposted : s'.posted = s.posted) (hparent : s'.parent = s.parent)
    (hexec : s'.execCoro = s.execCoro) : Overtaken s' := by
  refine h.frame hposted hparent (by rw [hexec]; exact id) (fun ⟨y, hy, hp⟩ => Or.inr ⟨y, ?_, hp⟩) fun hl => Or.inr ?_
  · rw [hr] at hy
    rcases List.mem_cons.1 hy with rfl | hy
    · rw [hx] at hp; cases hp
    · exact hy
  · rw [hr] at hl
    exact (leads_tail hl (by simp [hx])).2

theorem overtaken_afterTask {s : State U R V} (h : s.posted.isSome) {b : Bool} (hb : s.execCoro.done = true ∨ b = true)
    (rest : List (Handle V)) : Overtaken (afterTask { s with ready := rest } b) := by
  unfold afterTask
  split
  · exact ⟨h, nofun, nofun, nofun, fun o ho v hv => by rcases ho with ho | ho <;> cases ho; cases hv⟩
  · rename_i hd
    rw [if_pos (hb.resolve_left hd)]
    exact ⟨h, nofun, nofun, nofun, fun o ho v hv => by rcases ho with ho | ho <;> cases ho; cases hv⟩

theorem overtaken_setState {s : State U R V} {rest : List (Handle V)} {r : Result V} (hb : Base k s) (h : Overtaken s) :
    Overtaken (setState { s with ready := rest } r) := by
  have hdone : (setState { s with ready := rest } r).execCoro.done = true := by
    unfold setState
    split
    · rfl
    · next hpending => exact Future.done_of_ne hpending hb.execCoro
  refine h.frame ?_ ?_ (fun _ => hdone) (fun _ => Or.inl hdone) (fun _ => Or.inl hdone)
  · unfold setState
    split <;> rfl
  · unfold setState
    split <;> rfl

/-- A call that has ended without a value stays so. -/
theorem overtaken_of_ended {s : State U R V} (hposted : s.posted.isSome) {o : Result V} (hended : s.parent = .ended o)
    (hno : ∀ v, o ≠ .ok v) : Overtaken s := by
  refine ⟨hposted, fun hp => ?_, fun hp => ?_, fun hp => ?_, fun o' ho => ?_⟩
  · rw [hended] at hp; cases hp
  · rw [hended] at hp; cases hp
  · rw [hended] at hp; cases hp
  · rw [hended] at ho
    obtain ho | ho := ho <;> cases ho
    exact hno

theorem overtaken_step {s s' : State U R V} {a : Action U R V} (hb : Base k s) (h : Overtaken s)
    (hstep : (machine k).step s a = some s') : Overtaken s' := by
  cases stepTo_of_step hb.place hstep with
  | @cancelTask rest m hr hp hpc =>
    have hwake : ∀ y ∈ rest, ¬ y.isWake = true := by
      have hcount := hb.first hp
      rw [hr, List.countP_cons] at hcount
      exact List.countP_eq_zero.1 (by simpa [Handle.isWake] using hcount)
    refine ⟨h.posted, fun hc => ?_, fun _ => ?_, fun he => ?_, fun o ho => by rcases ho with ho | ho <;> cases ho⟩
    · cases hc
    · rcases h.first hp with hd | ⟨x, hx, hpost⟩
      · exact Or.inl hd
      · rw [hr] at hx
        rcases List.mem_cons.1 hx with rfl | hx
        · cases hpost
        · exact Or.inr (leads_of_mem hx hpost hwake)
    · cases he
  | noTask => exact overtaken_afterTask h.posted (Or.inr rfl) _
  | @taskDone rest hr hp =>
    refine overtaken_afterTask h.posted (Or.inl ?_) rest
    rcases h.second hp with hd | hl
    · exact hd
    · rw [hr] at hl
      exact absurd rfl (leads_tail hl Bool.false_ne_true).1
  | result _ hp => exact absurd hp h.third
  | noResult _ hp => exact absurd hp h.third
  | resume hr => exact h.serve hr rfl rfl rfl rfl
  | stale hr => exact h.serve hr rfl rfl rfl rfl
  | @finish r hp =>
    obtain ⟨-, -, -, hposted, -, -⟩ := finish_frame (k := k) s r
    have hposted' : (finish k s r).posted.isSome := hposted ▸ h.posted
    obtain hended | ⟨e, hended⟩ := finish_parent (k := k) s r
    · exact overtaken_of_ended hposted' hended (h.ended r (.inl hp))
    · exact overtaken_of_ended hposted' hended fun v hv => by cases hv
  | write hnone =>
    have hposted := h.posted
    rw [hnone] at hposted
    cases hposted
  | setState => exact overtaken_setState hb h
  | other hr => exact h.serve hr rfl rfl rfl rfl
  | wakeTask => exact h.queue _ rfl rfl rfl rfl
  | callSoon => exact h.queue _ rfl rfl rfl rfl
  | task =>
    unfold endStep
    split
    · exact h.queue [] rfl rfl rfl (List.append_nil _).symm
    · exact h.queue _ rfl rfl rfl rfl
    · exact h.queue [] rfl rfl rfl (List.append_nil _).symm
  | worker => exact h.queue [] rfl rfl rfl (List.append_nil _).symm
  | post hnone =>
    have hposted := h.posted
    rw [hnone] at hposted
    cases hposted

/-! ### Runs -/

theorem inTime_of_cancelled {s : State U R V} (h : Cancelled k s) : InTime s := by
  have hnopost : ∀ y ∈ s.ready, ¬ y.isPost = true := by
    obtain ⟨l, hl, hall⟩ := h.ready
    intro y hy
    rw [hl] at hy
    rcases List.mem_append.1 hy with hy | hy
    · rcases hall y hy with rfl | rfl <;> exact Bool.false_ne_true
    · rw [List.mem_singleton.1 hy]
      exact Bool.false_ne_true
  refine ⟨fun _ => ⟨h.posted, h.execCoro, hnopost⟩, fun hp => ?_, fun r hr => absurd rfl (hnopost _ hr), fun r hf => ?_,
    fun hp => ?_, fun _ => h.cancelSent, fun o ho => ?_⟩
  · rw [h.parent] at hp; cases hp
  · rw [h.execCoro] at hf; cases hf
  · rw [h.parent] at hp; cases hp
  · rw [h.parent] at ho
    rcases ho with ho | ho <;> cases ho

/-- What a step that does not meet the condition leaves for ever: a post that came too early, or an exception. -/
def Lost (s : State U R V) : Prop := Overtaken s ∨ ∃ e, s.parent = .ended (.error e)

theorem lost_of_not_returns {s s' : State U R V} {a : Action U R V} (hb : Base k s) (hnot : ¬ Returns k s a)
    (hstep : (machine k).step s a = some s') : Lost s' := by
  by_cases hlate : LatePost s a
  · have hquiet : ¬ QuietFinish k s a := fun hquiet => hnot ⟨hlate, hquiet⟩
    have ha : a = .finish := by
      by_contra ha
      exact hquiet fun h => absurd h ha
    subst ha
    have hto : StepTo k s .finish s' := stepTo_of_step hb.place hstep
    cases hto with
    | finish => exact .inr (finish_of_not_quiet hquiet _)
  · exact .inl (overtaken_of_early_post hb hlate hstep)

theorem lost_step {s s' : State U R V} {a : Action U R V} (hb : Base k s) (h : Lost s)
    (hstep : (machine k).step s a = some s') : Lost s' := by
  obtain h | ⟨e, he⟩ := h
  · exact .inl (overtaken_step hb h hstep)
  · exact .inr ⟨e, ended_step hb he hstep⟩

/-- **When a cancelled call returns the value of its function.**  In every run from the cancellation on in which
the handler has cancelled the nested task and the function has returned `v`: once the nested task is done, the loop
brings the `SyncToAsync` call to its end; and the call ends by returning `v` exactly if the worker posted the result
after the nested task was done and no comparison raised in the `finally` block. -/
theorem cancelled_call_returns {s₀ s : State U R V} {as : List (Action U R V)} {v : V}
    (hcancelled : Cancelled k s₀) (hrun : (machine k).run s₀ as = some s) (hsent : s.cancelSent = true)
    (hposted : s.posted = some (.ok v)) :
    (TaskDone s → (machine k).Inevitable (fun _ a => a.ofLoop = true) (fun t => ∃ o, t.parent = .ended o) s) ∧
      ∀ o, s.parent = .ended o → (o = .ok v ↔ (machine k).Meets (Returns k) s₀ as) := by
  have hgood : ∀ {t bs}, (machine k).Meets (Returns k) s₀ bs → (machine k).run s₀ bs = some t → Base k t ∧ InTime t :=
    fun {t _} hm hr => (machine k).run_invariant_of_meets (I := fun t => Base k t ∧ InTime t)
      (fun _ _ _ h hl hs => ⟨base_step h.1 hs, inTime_step h.1 h.2 hl hs⟩)
      ⟨base_of_cancelled hcancelled, inTime_of_cancelled hcancelled⟩ hm hr
  have hbase : ∀ {t bs}, (machine k).run s₀ bs = some t → Base k t ∧ Awake t := fun hr =>
    (machine k).run_invariant (I := fun t => Base k t ∧ Awake t)
      (fun _ _ _ h hs => ⟨base_step h.1 hs, awake_step h.1 h.2 hs⟩)
      ⟨base_of_cancelled hcancelled, awake_of_cancelled hcancelled⟩ hr
  refine ⟨fun hdone => ?_, fun o hended => ⟨?_, fun hm => ?_⟩⟩
  · have hclosing : Closing k s := ⟨(hbase hrun).1, (hbase hrun).2, hdone, by rw [hposted]; rfl⟩
    exact (machine k).inevitable_of_measure rank (fun t ht => ht.goesOn) (fun t a t' ht ha hs => ht.step ha hs) hclosing
  · rintro rfl
    by_contra hnot
    obtain ⟨as₁, a, as₂, t, t', -, hrun₁, -, ha, hstep, hrun₂⟩ := (machine k).exists_breaking hrun hnot
    have hb := (hbase hrun₁).1
    have hlast := (machine k).run_invariant (I := fun t => Base k t ∧ Lost t)
      (fun _ _ _ h hs => ⟨base_step h.1 hs, lost_step h.1 h.2 hs⟩)
      ⟨base_step hb hstep, lost_of_not_returns hb ha hstep⟩ hrun₂
    obtain hlost | ⟨e, he⟩ := hlast.2
    · exact hlost.ended _ (.inr hended) v rfl
    · rw [hended] at he
      cases he
  · have hlast := (hgood hm hrun).2.ended o (.inr hended) hsent
    rw [hposted] at hlast
    exact (Option.some.inj hlast).symm

/-! ### Two schedules of one program -/

/-- The nested call, made by thread 1 on the loop of thread 2, until its coroutine is suspended. -/
def untilBlocked : List (AsyncToSync.Action Nat Nat) :=
  [.executor (.enter 0 1), .executor (.loop 0), .createTask, .firstStep, .suspend]

/-- The call that is blocked, in the state in which it is cancelled. -/
def cancelledIn (call : AsyncToSync.State Nat Nat) : State Nat Nat Nat :=
  { call := call, ready := [.wakeParent], inStep := false, ctx := ∅ }

/-- The handler cancels the nested task, whose coroutine absorbs the cancellation and returns 5. -/
def absorb : List (Action Nat Nat Nat) :=
  [.run, .wakeTask, .run, .task (.finish (.ok 5)), .task .resolve, .worker (.executor (.done 0))]

/-- The rest of the step of the nested task. -/
def endNested : List (Action Nat Nat Nat) := [.task .remove, .task .store, .task .endTask]

/-- The nested call returns on the worker, the function returns 7, and the result is posted. -/
def returnSeven : List (Action Nat Nat Nat) :=
  [.worker (.executor (.loop 0)), .worker .leave, .worker .restore, .worker .ret, .post (.ok 7)]

theorem cancelled_call_returns_timely : ∃ call s,
    ((AsyncToSync.start AsyncToSync.plainCall ∅ (some []) .init).bind fun s₀ =>
      (AsyncToSync.machine AsyncToSync.plainCall).run s₀ untilBlocked) = some call ∧
    (machine AsyncToSync.plainCall).run (cancelledIn call)
      (absorb ++ endNested ++ returnSeven ++ [.run, .run, .run, .finish]) = some s ∧
    ((.ok 7 : Result Nat) = .ok 7 ↔ (machine AsyncToSync.plainCall).Meets (Returns AsyncToSync.plainCall)
      (cancelledIn call) (absorb ++ endNested ++ returnSeven ++ [.run, .run, .run, .finish])) := by
  refine ⟨_, _, rfl, rfl, ?_⟩
  refine (cancelled_call_returns ?_ rfl rfl rfl).2 (.ok 7) rfl
  exact ⟨rfl, rfl, rfl, Or.inr ⟨rfl, rfl⟩, rfl, rfl, rfl, rfl, [], rfl, nofun⟩

/-- **The value is dropped** when the worker is woken by `call_result` and posts the result before the nested task
is done: the same program, cancelled in the same state, does not return the value of its function. -/
theorem value_dropped : ¬ ∀ (call : AsyncToSync.State Nat Nat) (s : State Nat Nat Nat) (as : List (Action Nat Nat Nat))
    (o : Result Nat),
    ((AsyncToSync.start AsyncToSync.plainCall ∅ (some []) .init).bind fun s₀ =>
      (AsyncToSync.machine AsyncToSync.plainCall).run s₀ untilBlocked) = some call →
    (machine AsyncToSync.plainCall).run (cancelledIn call) as = some s → s.cancelSent = true →
    s.call.callResult = .finished (.ok 5) → s.posted = some (.ok 7) → s.parent = .ended o → o = .ok 7 := by
  intro h
  have hdropped := h _ _ (absorb ++ returnSeven ++ endNested ++ [.run, .run, .finish]) _ rfl rfl rfl rfl rfl rfl
  exact absurd hdropped nofun

end Asgiref.SyncToAsync
