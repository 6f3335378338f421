import Asgiref.Lib.Queue
import Asgiref.AsyncToSync.Resolved
import Asgiref.SyncToAsync.Cancellation

/-!
# The steps of a cancelled `SyncToAsync` call

* `StepTo` — what each step does, where the nested task is at its place;
* `Base` — what every step keeps: where the nested task is, and how often the coroutine of the call is woken;
* `finish_frame`, `finish_parent` — what the `finally` block does.
-/

namespace Asgiref.SyncToAsync

open Asgiref.Python Asgiref.Lib
open AsyncToSync (Call TaskPc)

variable {U R V : Type} {k : Call U}

def Handle.isWake : Handle V → Bool
  | .wakeParent => true
  | _ => false

def Handle.isPost : Handle V → Bool
  | .setState _ => true
  | _ => false

/-- The task is done. -/
def TaskDone (s : State U R V) : Prop := ∃ out, s.call.taskPc = .done out

/-- The coroutine is past `await task`. -/
def ParentPc.pastTask : ParentPc V → Bool
  | .cancelled | .awaitingTask => false
  | _ => true

/-- Where the nested task is, by whether the loop is in one of its steps. -/
def Place (k : Call U) (c : AsyncToSync.State U R) : Bool → Prop
  | true =>
    ((∃ m, c.taskPc = .running m) ∨ (∃ r, c.taskPc = .awaited r) ∨ c.taskPc = .resolved (.ok ())) ∧
        c.taskContext = some [k.task] ∨
      (c.taskPc = .removed (.ok ()) ∨ c.taskPc = .stored (.ok ())) ∧ c.taskContext = some []
  | false =>
    (∃ m, c.taskPc = .suspended m) ∧ c.taskContext = some [k.task] ∨
      c.taskPc = .done (.ok ()) ∧ c.taskContext = some []

/-- What every step keeps. -/
structure Base (k : Call U) (s : State U R V) : Prop where
  place : Place k s.call s.inStep
  unresolved : s.call.taskPc.pastResult = false → s.call.callResult = .pending
  /-- The first wake-up of the parent is the only one. -/
  first : s.parent = .cancelled → s.ready.countP Handle.isWake = 1
  /-- The second one comes when the task is done. -/
  second : s.parent = .awaitingTask → ¬ TaskDone s → s.ready.countP Handle.isWake = 0
  done : s.parent.pastTask = true → TaskDone s
  execCoro : s.execCoro ≠ .running

/-! ### The nested call -/

theorem caller_frame {c c' : AsyncToSync.State U R} {a : AsyncToSync.Action U R} (ha : a.ofCaller = true)
    (h : AsyncToSync.step k c a = some c') :
    c'.taskPc = c.taskPc ∧ c'.taskContext = c.taskContext ∧ c'.callResult = c.callResult := by
  cases AsyncToSync.stepTo_of_step k h with
  | executor | leave | ret => exact ⟨rfl, rfl, rfl⟩
  | restore =>
    unfold AsyncToSync.restore
    split <;> exact ⟨rfl, rfl, rfl⟩
  | _ => cases ha

/-- The step of the loop goes on unless the task is suspended or done. -/
def goesOn (c : AsyncToSync.State U R) : Bool :=
  match c.taskPc with
  | .suspended _ | .done _ => false
  | _ => true

theorem place_task {c c' : AsyncToSync.State U R} {a : AsyncToSync.Action U R} (hplace : Place k c true)
    (hpend : c.taskPc.pastResult = false → c.callResult = .pending) (ha : a.ofTask = true)
    (h : AsyncToSync.step k c a = some c') :
    Place k c' (goesOn c') ∧ (c'.taskPc.pastResult = false → c'.callResult = .pending) := by
  have hlist : c.taskPc.isListed = true → c.taskContext = some [k.task] := by
    intro hl
    rcases hplace with ⟨-, hc⟩ | ⟨hpc | hpc, -⟩
    · exact hc
    · rw [hpc] at hl; cases hl
    · rw [hpc] at hl; cases hl
  have hout : ∀ out, c.taskPc = .resolved out ∨ c.taskPc = .removed out ∨ c.taskPc = .stored out → out = .ok () := by
    intro out ho
    simp only [Place] at hplace
    grind
  have hempty : ∀ out, c.taskPc = .removed out ∨ c.taskPc = .stored out → c.taskContext = some [] := by
    intro out ho
    simp only [Place] at hplace
    grind
  cases AsyncToSync.stepTo_of_step k h with
  | @write w m _ hpc =>
    simp only [goesOn, hpc]
    exact ⟨Or.inl ⟨Or.inl ⟨m, rfl⟩, hlist (by rw [hpc]; rfl)⟩, fun _ => hpend (by rw [hpc]; rfl)⟩
  | writeRaises hpc =>
    simp only [goesOn, hpc]
    exact ⟨hplace, fun _ => hpend (by rw [hpc]; rfl)⟩
  | @suspend m hpc => exact ⟨Or.inl ⟨⟨m, rfl⟩, hlist (by rw [hpc]; rfl)⟩, fun _ => hpend (by rw [hpc]; rfl)⟩
  | @finish _ r hpc => exact ⟨Or.inl ⟨Or.inr (Or.inl ⟨r, rfl⟩), hlist (by rw [hpc]; rfl)⟩, fun _ => hpend (by rw [hpc]; rfl)⟩
  | resolve hpc => exact ⟨Or.inl ⟨Or.inr (Or.inr rfl), hlist (by rw [hpc]; rfl)⟩, fun h => by cases h⟩
  | resolveRaises hpc hf =>
    rw [hpend (by rw [hpc]; rfl), Future.settle_pending] at hf
    cases hf
  | remove hpc =>
    have hl := hlist (by rw [hpc]; rfl)
    rw [hout _ (Or.inl hpc)]
    simp only [AsyncToSync.remove, hl, List.mem_singleton, if_true, List.erase_cons_head]
    exact ⟨Or.inr ⟨Or.inl rfl, rfl⟩, fun h => by cases h⟩
  | store hpc =>
    rw [hout _ (Or.inr (Or.inl hpc))]
    exact ⟨Or.inr ⟨Or.inr rfl, hempty _ (Or.inl hpc)⟩, fun h => by cases h⟩
  | endTask hpc =>
    rw [hout _ (Or.inr (Or.inr hpc))]
    exact ⟨Or.inr ⟨rfl, hempty _ (Or.inr hpc)⟩, fun h => by cases h⟩
  | _ => cases ha

/-! ### What a step can do -/

/-- The steps of the machine, one constructor for each path through the code. -/
inductive StepTo (k : Call U) (s : State U R V) : Action U R V → State U R V → Prop where
  /-- The handler cancels the nested task and awaits it. -/
  | cancelTask {rest m} : s.ready = .wakeParent :: rest → s.parent = .cancelled → s.call.taskPc = .suspended m →
      s.inStep = false →
      StepTo k s .run { s with ready := rest, call := { s.call with taskPc := .suspended true },
                               parent := .awaitingTask, cancelSent := true }
  /-- The handler finds no task. -/
  | noTask {rest} : s.ready = .wakeParent :: rest → s.parent = .cancelled → TaskDone s →
      StepTo k s .run (afterTask { s with ready := rest } true)
  | taskDone {rest} : s.ready = .wakeParent :: rest → s.parent = .awaitingTask → TaskDone s →
      StepTo k s .run (afterTask { s with ready := rest } false)
  | result {rest r} : s.ready = .wakeParent :: rest → s.parent = .awaitingExec → s.execCoro = .finished r →
      StepTo k s .run { s with ready := rest, parent := .leaving r }
  | noResult {rest} : s.ready = .wakeParent :: rest → s.parent = .awaitingExec →
      s.execCoro = .cancelled ∨ s.execCoro = .cancelledAndNotified →
      StepTo k s .run { s with ready := rest, parent := .leaving (.error .cancelledError) }
  | resume {rest m} : s.ready = .stepTask :: rest → s.call.taskPc = .suspended m → s.inStep = false →
      StepTo k s .run { s with ready := rest, call := { s.call with taskPc := .running false }, inStep := true }
  | stale {rest} : s.ready = .stepTask :: rest → StepTo k s .run { s with ready := rest }
  | setState {rest r} : s.ready = .setState r :: rest → StepTo k s .run (setState { s with ready := rest } r)
  | other {rest} : s.ready = .other :: rest → StepTo k s .run { s with ready := rest }
  | wakeTask : StepTo k s .wakeTask { s with ready := s.ready ++ [.stepTask] }
  | callSoon : StepTo k s .callSoon { s with ready := s.ready ++ [.other] }
  | task {a c} : s.inStep = true → a.ofTask = true → AsyncToSync.step k s.call a = some c →
      StepTo k s (.task a) (endStep s c)
  | worker {a c} : a.ofCaller = true → AsyncToSync.step k s.call a = some c →
      StepTo k s (.worker a) { s with call := c }
  | finish {r} : s.parent = .leaving r → StepTo k s .finish (finish k s r)
  | write {w c} : s.posted = none → StepTo k s (.write w) { s with call := { s.call with callerCtx := c } }
  | post {r} : s.posted = none →
      StepTo k s (.post r) { s with posted := some r, ready := s.ready ++ [.setState r] }

/-- The coroutine of the `SyncToAsync` call, woken while the loop is in no step of the nested task. -/
theorem stepTo_wakeParent {s s' : State U R V} {rest : List (Handle V)} (hplace : Place k s.call false)
    (hin : s.inStep = false) (hr : s.ready = .wakeParent :: rest)
    (h : parentStep k { s with ready := rest } = some s') : StepTo k s .run s' := by
  unfold parentStep at h
  split at h
  · rename_i hp
    rcases hplace with ⟨⟨m, hpc⟩, hlist⟩ | ⟨hpc, hlist⟩
    · simp only [hlist, if_true, Option.map_eq_some_iff] at h
      obtain ⟨c, hc, rfl⟩ := h
      simp only [AsyncToSync.step, hpc] at hc
      cases hc
      exact .cancelTask hr hp hpc hin
    · simp only [hlist, Option.some.injEq] at h
      rw [← h]
      exact .noTask hr hp ⟨_, hpc⟩
  · rename_i hp
    rcases hplace with ⟨⟨m, hpc⟩, -⟩ | ⟨hpc, -⟩
    · simp only [hpc] at h
      cases h
    · simp only [hpc, Option.some.injEq] at h
      rw [← h]
      exact .taskDone hr hp ⟨_, hpc⟩
  · rename_i hp
    split at h <;> cases h
    · exact .result hr hp ‹_›
    · exact .noResult hr hp (Or.inl ‹_›)
    · exact .noResult hr hp (Or.inr ‹_›)
  · cases h
  · cases h

theorem stepTo_of_step {s s' : State U R V} {a : Action U R V} (hplace : Place k s.call s.inStep)
    (h : step k s a = some s') : StepTo k s a s' := by
  cases a with
  | run =>
    simp only [step] at h
    split at h
    · rename_i hd rest hidle hr
      have hin : s.inStep = false := (Bool.or_eq_false_iff.1 hidle).1
      rw [hin] at hplace
      cases hd with
      | wakeParent => exact stepTo_wakeParent hplace hin hr h
      | stepTask =>
        simp only [runHandle] at h
        split at h
        · obtain ⟨c, hc, rfl⟩ := Option.map_eq_some_iff.1 h
          cases AsyncToSync.stepTo_of_step k hc with
          | resume hpc => exact .resume hr hpc hin
        · cases h
          exact .stale hr
      | setState r => cases h; exact .setState hr
      | other => cases h; exact .other hr
    · cases h
  | wakeTask =>
    simp only [step] at h
    split at h
    · split at h <;> cases h
      exact .wakeTask
    · cases h
  | callSoon => cases h; exact .callSoon
  | task a =>
    simp only [step, Option.ite_none_right_eq_some] at h
    obtain ⟨⟨hin, ha⟩, h⟩ := h
    obtain ⟨c, hc, rfl⟩ := Option.map_eq_some_iff.1 h
    exact .task hin ha hc
  | worker a =>
    simp only [step, Option.ite_none_right_eq_some] at h
    obtain ⟨ha, h⟩ := h
    obtain ⟨c, hc, rfl⟩ := Option.map_eq_some_iff.1 h
    exact .worker ha hc
  | finish =>
    simp only [step] at h
    split at h <;> cases h
    exact .finish ‹_›
  | write w =>
    simp only [step] at h
    split at h
    · next hcond =>
      have hnone := Option.isNone_iff_eq_none.1 hcond.1
      split at h <;> cases h
      · exact .write hnone
      · exact .write (c := s.call.callerCtx) hnone
    · cases h
  | post r =>
    simp only [step, Option.ite_none_right_eq_some, Option.some.injEq] at h
    obtain ⟨⟨hnone, -⟩, rfl⟩ := h
    exact .post (Option.isNone_iff_eq_none.1 hnone)

/-! ### What every step keeps -/

theorem not_taskDone_of_suspended {s : State U R V} {m : Bool} (h : s.call.taskPc = .suspended m) : ¬ TaskDone s := by
  rintro ⟨out, ho⟩
  rw [h] at ho
  cases ho

theorem not_taskDone_of_place {s : State U R V} (h : Place k s.call true) : ¬ TaskDone s := by
  rintro ⟨out, ho⟩
  rcases h with ⟨⟨m, hm⟩ | ⟨r, hm⟩ | hm, -⟩ | ⟨hm | hm, -⟩ <;> rw [hm] at ho <;> cases ho

theorem afterTask_frame (s : State U R V) (b : Bool) : (afterTask s b).call = s.call ∧ (afterTask s b).inStep = s.inStep ∧
    (afterTask s b).ready = s.ready ∧ (afterTask s b).posted = s.posted ∧ (afterTask s b).cancelSent = s.cancelSent := by
  unfold afterTask
  split
  · exact ⟨rfl, rfl, rfl, rfl, rfl⟩
  · split <;> exact ⟨rfl, rfl, rfl, rfl, rfl⟩

theorem afterTask_parent (s : State U R V) (b : Bool) :
    (afterTask s b).parent = .awaitingExec ∨ ∃ o, (afterTask s b).parent = .leaving o := by
  unfold afterTask
  split
  · exact Or.inr ⟨_, rfl⟩
  · split
    · exact Or.inr ⟨_, rfl⟩
    · exact Or.inl rfl

theorem afterTask_execCoro {s : State U R V} (h : s.execCoro ≠ .running) (b : Bool) :
    (afterTask s b).execCoro ≠ .running := by
  unfold afterTask
  split
  · exact h
  · split
    · exact fun hc => h (Future.cancel_eq_running.1 hc)
    · exact h

/-- The `finally` block changes the context of the coroutine, and ends the call. -/
theorem finish_frame (s : State U R V) (r : Result V) : (finish k s r).call = s.call ∧ (finish k s r).inStep = s.inStep ∧
    (finish k s r).ready = s.ready ∧ (finish k s r).posted = s.posted ∧ (finish k s r).cancelSent = s.cancelSent ∧
    (finish k s r).execCoro = s.execCoro := by
  unfold finish
  split <;> exact ⟨rfl, rfl, rfl, rfl, rfl, rfl⟩

/-- The call ends with `r`, or with the exception of a comparison. -/
theorem finish_parent (s : State U R V) (r : Result V) :
    (finish k s r).parent = .ended r ∨ ∃ e, (finish k s r).parent = .ended (.error e) := by
  unfold finish
  split
  · exact .inl rfl
  · exact .inr ⟨_, rfl⟩

/-- The parent goes on after the task is done. -/
theorem base_afterTask {s : State U R V} (h : Base k s) (rest : List (Handle V)) (hdone : TaskDone s) (b : Bool) :
    Base k (afterTask { s with ready := rest } b) := by
  obtain ⟨hc, hi, -, -, -⟩ := afterTask_frame { s with ready := rest } b
  have hdone' : TaskDone (afterTask { s with ready := rest } b) := by
    unfold TaskDone
    rw [hc]
    exact hdone
  refine ⟨by rw [hc, hi]; exact h.place, by rw [hc]; exact h.unresolved, fun hp => ?_, fun _ hn => absurd hdone' hn,
    fun _ => hdone', afterTask_execCoro (s := { s with ready := rest }) h.execCoro b⟩
  rcases afterTask_parent { s with ready := rest } b with hp' | ⟨o, hp'⟩ <;> rw [hp'] at hp <;> cases hp

theorem countP_wake_append (l : List (Handle V)) {h : Handle V} (hh : h.isWake = false) :
    (l ++ [h]).countP Handle.isWake = l.countP Handle.isWake := by
  simp [List.countP_append, hh]

theorem countP_wake_tail {l rest : List (Handle V)} {h : Handle V} (hl : l = h :: rest) (hh : h.isWake = false) :
    rest.countP Handle.isWake = l.countP Handle.isWake := by
  simp [hl, hh]

/-- A step that changes the queue only, by handles that wake nobody. -/
theorem Base.queue {s s' : State U R V} (h : Base k s) (hcall : s'.call = s.call) (hin : s'.inStep = s.inStep)
    (hparent : s'.parent = s.parent) (hexec : s'.execCoro = s.execCoro)
    (hready : s'.ready.countP Handle.isWake = s.ready.countP Handle.isWake) : Base k s' where
  place := by rw [hcall, hin]; exact h.place
  unresolved := by rw [hcall]; exact h.unresolved
  first := by rw [hparent, hready]; exact h.first
  second := by unfold TaskDone; rw [hparent, hready, hcall]; exact h.second
  done := by unfold TaskDone; rw [hparent, hcall]; exact h.done
  execCoro := by rw [hexec]; exact h.execCoro

theorem base_setState {s : State U R V} {rest : List (Handle V)} {r : Result V} (h : Base k s)
    (hr : s.ready = .setState r :: rest) : Base k (setState { s with ready := rest } r) := by
  have hcount := countP_wake_tail hr rfl
  unfold setState
  split
  · -- the parent that awaits `exec_coro` is woken
    refine ⟨h.place, h.unresolved, fun hp => ?_, fun hp hn => ?_, h.done, nofun⟩
    · have hno : s.parent.isAwaitingExec = false := by rw [show s.parent = .cancelled from hp]; rfl
      simp only [hno, wakeIf]
      simpa [hcount] using h.first hp
    · have hno : s.parent.isAwaitingExec = false := by rw [show s.parent = .awaitingTask from hp]; rfl
      simp only [hno, wakeIf]
      simpa [hcount] using h.second hp hn
  · exact h.queue rfl rfl rfl rfl hcount

theorem base_endStep {s : State U R V} {c : AsyncToSync.State U R} {a : AsyncToSync.Action U R} (h : Base k s)
    (hin : s.inStep = true) (ha : a.ofTask = true) (hc : AsyncToSync.step k s.call a = some c) :
    Base k (endStep s c) := by
  have hplace := h.place
  rw [hin] at hplace
  have hnot := not_taskDone_of_place hplace
  have hparent : s.parent = .cancelled ∨ s.parent = .awaitingTask := by
    cases hp : s.parent with
    | cancelled => exact Or.inl rfl
    | awaitingTask => exact Or.inr rfl
    | _ => exact absurd (h.done (by rw [hp]; rfl)) hnot
  have hnone : s.parent.pastTask ≠ true := fun hp => hnot (h.done hp)
  obtain ⟨hp', hpend⟩ := place_task hplace h.unresolved ha hc
  unfold endStep
  split
  · rename_i hm
    simp only [goesOn, hm] at hp'
    exact ⟨hp', hpend, h.first, fun hp _ => h.second hp hnot, fun hp => absurd hp hnone, h.execCoro⟩
  · rename_i hm
    simp only [goesOn, hm] at hp'
    refine ⟨hp', hpend, fun hp => ?_, fun _ hn => absurd ⟨_, hm⟩ hn, fun hp => absurd hp hnone, h.execCoro⟩
    have hno : s.parent.isAwaitingTask = false := by rw [show s.parent = .cancelled from hp]; rfl
    simp only [hno, wakeIf]
    simpa using h.first hp
  · rename_i hs hd
    have hgo : goesOn c = true := by
      unfold goesOn
      split
      · exact absurd ‹_› (hs _)
      · exact absurd ‹_› (hd _)
      · rfl
    rw [hgo] at hp'
    refine ⟨by rw [hin]; exact hp', hpend, h.first, fun hp _ => h.second hp hnot, fun hp => absurd hp hnone, h.execCoro⟩

theorem base_step {s s' : State U R V} {a : Action U R V} (h : Base k s) (hstep : (machine k).step s a = some s') :
    Base k s' := by
  cases stepTo_of_step h.place hstep with
  | @cancelTask rest m hr hp hpc hin =>
    have hlist : s.call.taskContext = some [k.task] := by
      have hplace := h.place
      rw [hin] at hplace
      rcases hplace with ⟨-, hl⟩ | ⟨hd, -⟩
      · exact hl
      · rw [hpc] at hd; cases hd
    refine ⟨by rw [hin]; exact Or.inl ⟨⟨_, rfl⟩, hlist⟩, fun _ => h.unresolved (by rw [hpc]; rfl), nofun, fun _ _ => ?_,
      nofun, h.execCoro⟩
    have hcount := h.first hp
    rw [hr, List.countP_cons] at hcount
    simpa [Handle.isWake] using hcount
  | noTask _ _ hd => exact base_afterTask h _ hd _
  | taskDone _ _ hd => exact base_afterTask h _ hd _
  | result _ hp =>
    exact ⟨h.place, h.unresolved, nofun, nofun, fun _ => h.done (by rw [hp]; rfl), h.execCoro⟩
  | noResult _ hp =>
    exact ⟨h.place, h.unresolved, nofun, nofun, fun _ => h.done (by rw [hp]; rfl), h.execCoro⟩
  | @resume rest m hr hpc hin =>
    have hplace := h.place
    rw [hin] at hplace
    have hnot := not_taskDone_of_suspended hpc
    have hcount := countP_wake_tail hr rfl
    refine ⟨Or.inl ⟨Or.inl ⟨_, rfl⟩, ?_⟩, fun _ => h.unresolved (by rw [hpc]; rfl), ?_, fun hp _ => ?_,
      fun hp => absurd (h.done hp) hnot, h.execCoro⟩
    · rcases hplace with ⟨-, hl⟩ | ⟨hd, -⟩
      · exact hl
      · rw [hpc] at hd; cases hd
    · simpa only [hcount] using h.first
    · simpa only [hcount] using h.second hp hnot
  | stale hr => exact h.queue rfl rfl rfl rfl (countP_wake_tail hr rfl)
  | setState hr => exact base_setState h hr
  | other hr => exact h.queue rfl rfl rfl rfl (countP_wake_tail hr rfl)
  | wakeTask => exact h.queue rfl rfl rfl rfl (countP_wake_append _ rfl)
  | callSoon => exact h.queue rfl rfl rfl rfl (countP_wake_append _ rfl)
  | task hin ha hc => exact base_endStep h hin ha hc
  | @finish r hp =>
    obtain ⟨hcall, hin, hready, -, -, hexec⟩ := finish_frame (k := k) s r
    have hd := h.done (by rw [hp]; rfl)
    have hended : ∃ o, (finish k s r).parent = .ended o := (finish_parent s r).elim (fun h => ⟨_, h⟩) fun ⟨e, h⟩ => ⟨_, h⟩
    obtain ⟨o, ho⟩ := hended
    refine ⟨by rw [hcall, hin]; exact h.place, by rw [hcall]; exact h.unresolved, ?_, ?_, ?_, by rw [hexec]; exact h.execCoro⟩
    · rw [ho]
      exact nofun
    · rw [ho]
      exact nofun
    · unfold TaskDone
      rw [hcall]
      exact fun _ => hd
  | write => exact ⟨h.place, h.unresolved, h.first, h.second, h.done, h.execCoro⟩
  | worker ha hc =>
    obtain ⟨hpc, hlist, hres⟩ := caller_frame ha hc
    have hplace := h.place
    unfold Place at hplace
    refine ⟨?_, by rw [hpc, hres]; exact h.unresolved, h.first, ?_, ?_, h.execCoro⟩
    · unfold Place
      rw [hpc, hlist]
      exact hplace
    · unfold TaskDone
      rw [hpc]
      exact h.second
    · unfold TaskDone
      rw [hpc]
      exact h.done
  | post => exact h.queue rfl rfl rfl rfl (countP_wake_append _ rfl)

/-! ### Runs -/

theorem base_of_cancelled {s : State U R V} (h : Cancelled k s) : Base k s := by
  have hpc : s.call.taskPc = .running false ∨ s.call.taskPc = .suspended false := h.task.imp And.right And.right
  have hnot : ¬ TaskDone s := by
    rintro ⟨out, ho⟩
    rcases hpc with hpc | hpc <;> rw [hpc] at ho <;> cases ho
  refine ⟨?_, fun _ => h.unresolved, fun _ => ?_, fun hp => ?_, fun hp => ?_, ?_⟩
  · rcases h.task with ⟨hin, hpc⟩ | ⟨hin, hpc⟩ <;> rw [hin]
    · exact Or.inl ⟨Or.inl ⟨_, hpc⟩, h.taskContext⟩
    · exact Or.inl ⟨⟨_, hpc⟩, h.taskContext⟩
  · obtain ⟨l, hl, hall⟩ := h.ready
    have hzero : l.countP Handle.isWake = 0 :=
      List.countP_eq_zero.2 fun y hy => by rcases hall y hy with rfl | rfl <;> exact Bool.false_ne_true
    rw [hl, List.countP_append, hzero]
    rfl
  · rw [h.parent] at hp
    cases hp
  · rw [h.parent] at hp
    cases hp
  · rw [h.execCoro]
    exact nofun

/-- A call that has ended stays so. -/
theorem ended_step {s s' : State U R V} {a : Action U R V} (hb : Base k s) {o : Result V} (h : s.parent = .ended o)
    (hstep : (machine k).step s a = some s') : s'.parent = .ended o := by
  cases stepTo_of_step hb.place hstep with
  | cancelTask _ hp => rw [h] at hp; cases hp
  | noTask _ hp => rw [h] at hp; cases hp
  | taskDone _ hp => rw [h] at hp; cases hp
  | result _ hp => rw [h] at hp; cases hp
  | noResult _ hp => rw [h] at hp; cases hp
  | finish hp => rw [h] at hp; cases hp
  | setState =>
    unfold setState
    split <;> exact h
  | task =>
    unfold endStep
    split <;> exact h
  | _ => exact h

end Asgiref.SyncToAsync
