import Asgiref.Sync.Calls

/-!
# Thread affinity

Trees of calls under one function, the root, all thread-sensitive and without contexts of their own.

* `workThread_step` — no step gives an executor to another thread;
* `TreeInv` — the executors are the root's thread's, and every coroutine can see one; `treeInv_step` is the step lemma;
* `affinity` — every function that is run, is run by the root's thread, and every `AsyncToSync` call leaves the executor
  visible that was visible before it; `executor_left` — a run in which it does not.
-/

namespace Asgiref.Sync.Calls

open Asgiref.Python Asgiref.Lib

/-! ### The threads of the executors -/

/-- A step of the executors leaves their threads alone, and `create` names that of the new one. -/
theorem workThread_step {s s' : CurrentThreadExecutor.State} {a : CurrentThreadExecutor.Action} {R : ThreadId}
    (h : ∀ e x, s.execs e = some x → x.workThread = R) (ha : ∀ e t old, a = .create e t old → t = R)
    (hs : CurrentThreadExecutor.step s a = some s') : ∀ e x, s'.execs e = some x → x.workThread = R := by
  have hset : ∀ {e : Nat} {y : CurrentThreadExecutor.Executor}, y.workThread = R →
      ∀ e' x', (s.setExec e y).execs e' = some x' → x'.workThread = R := by
    intro e y hy e' x' hx'
    rw [CurrentThreadExecutor.State.execs_setExec] at hx'
    split at hx'
    · cases hx'
      exact hy
    · exact h e' x' hx'
  have hold : ∀ {e : Nat} {x y : CurrentThreadExecutor.Executor}, s.execs e = some x → y.workThread = x.workThread →
      ∀ e' x', (s.setExec e y).execs e' = some x' → x'.workThread = R := fun hx hy => hset (hy.trans (h _ _ hx))
  cases CurrentThreadExecutor.stepTo_of_step hs with
  | @create e t old => exact hset (ha e t old rfl)
  | enterRefused | submitRefused => exact h
  | submit | walkRejected | walkUp | cancel => exact h
  | enterDone hx | enter hx | resolve hx | loopReturn hx | loopWait hx | loopPop hx => exact hold hx rfl
  | done hx => exact hold hx (by simp only [CurrentThreadExecutor.Executor.done]; rw [CurrentThreadExecutor.notify_eq])
  | run hx =>
    unfold CurrentThreadExecutor.runItem
    split <;> exact hold hx rfl
  | complete hx =>
    unfold CurrentThreadExecutor.completeItem
    split <;> exact hold hx rfl
  | walkAppend _ _ hx => exact hold hx (by rw [CurrentThreadExecutor.Executor.append, CurrentThreadExecutor.notify_eq])

/-! ### The executors in the contexts -/

section

variable {U : Type}

/-- The thread can see an executor. -/
def Sees (t : ThreadId) (c : Context U) : Prop := ∃ e, c.currentExecutor t = some e

/-- The context holds an executor, whoever owns it. -/
def Carries (c : Context U) : Prop := ∃ st e, c.data .executors = some st ∧ st.data "current" = some (some e)

theorem Sees.carries {t : ThreadId} {c : Context U} (h : Sees t c) : Carries c := by
  obtain ⟨e, he⟩ := h
  obtain ⟨st, hst, -, hcur⟩ := Context.currentExecutor_eq_some.1 he
  exact ⟨st, e, hst, hcur⟩

theorem sees_setCurrentExecutor (c : Context U) (t : ThreadId) (e : Nat) : Sees t (c.setCurrentExecutor t (some e)) :=
  ⟨e, Context.currentExecutor_setCurrentExecutor c t (some e)⟩

variable {vars : UserVars U} {t : ThreadId} {context cur : Context U}

/-- A storage with an executor, moved to the thread. -/
theorem sees_of_rehome {c : Context U} {st : Storage (Option Nat)} {e : Nat} (h : c.data .executors = some (rehome t st))
    (he : st.data "current" = some (some e)) : Sees t c :=
  ⟨e, Context.currentExecutor_eq_some.2 ⟨rehome t st, h, threadId_rehome t st, he⟩⟩

/-- With an exception or without, a thread that could see an executor sees one after `_restore_context`. -/
theorem sees_restoreContext (h : Carries context) (h' : Sees t cur) : Sees t (restoreContext vars t context cur).1 := by
  obtain ⟨st, e, hst, he⟩ := h
  have hmove : (restoreContext vars t context cur).1.data .executors = cur.data .executors ∨
      (restoreContext vars t context cur).1.data .executors = some (rehome t st) := executors_restoreContext hst
  rcases hmove with hl | hl
  · obtain ⟨e', he'⟩ := h'
    exact ⟨e', (Context.currentExecutor_congr t hl).trans he'⟩
  · exact sees_of_rehome hl he

theorem sees_restoreContext_of_none (hr : ¬ Raises vars context cur) (h : Carries context) :
    Sees t (restoreContext vars t context cur).1 := by
  obtain ⟨st, e, hst, he⟩ := h
  exact sees_of_rehome (data_restoreContext hr hst) he

theorem carries_restoreContext (h : Carries context) (h' : Carries cur) : Carries (restoreContext vars t context cur).1 := by
  obtain ⟨st, e, hst, he⟩ := h
  have hmove : (restoreContext vars t context cur).1.data .executors = cur.data .executors ∨
      (restoreContext vars t context cur).1.data .executors = some (rehome t st) := executors_restoreContext hst
  rcases hmove with hl | hl
  · obtain ⟨st', e', hst', he'⟩ := h'
    exact ⟨st', e', hl.trans hst', he'⟩
  · exact ⟨rehome t st, e, hl, he⟩

end

/-! ### The invariant -/

section

variable {U : Type}

/-- The steps of a tree of thread-sensitive calls. -/
def InTree : Action U → Prop
  | .callSync _ _ threadSensitive _ own => threadSensitive = true ∧ own = none
  | .driveLoop .. => False
  | _ => True

/-- What is known of the body `i`, where 0 is the root and `R` its thread. -/
def Bound (R : ThreadId) (i : BodyId) (b : Body U) : Prop :=
  match b.kind, b.phase with
  | .task _, .dropped => True
  | .task _, _ => Sees b.thread b.ctx
  | .function x _, .queued => i ≠ 0 ∧ (∃ e, x = .currentThread e) ∧ Carries b.ctx
  | .function _ _, .dropped => i ≠ 0 ∧ Carries b.ctx
  | .function _ _, .blocked _ old context => b.thread = R ∧ Carries context ∧ (i ≠ 0 → Sees R b.ctx ∧ old.isSome = true)
  | .function _ _, _ => b.thread = R ∧ (i ≠ 0 → Sees R b.ctx)

/-- The executors are those of the root's thread, and every coroutine can see one. -/
structure TreeInv (R : ThreadId) (s : State U) : Prop where
  workThread : ∀ e x, s.execs.execs e = some x → x.workThread = R
  root : (s.bodies 0).isSome = true
  bound : ∀ i b, s.bodies i = some b → Bound R i b
  blocked : ∀ i b k old c, s.bodies i = some b → b.phase = .blocked k old c →
    (∃ x o, b.kind = .function x o) ∧ ∃ y l, s.bodies k = some y ∧ y.kind = .task l
  awaiting : ∀ i b j, s.bodies i = some b → b.phase = .awaiting j → j ≠ 0

/-! ### What is known by the kind and the phase of a body -/

section

variable {R : ThreadId} {i : BodyId} {b : Body U} {l : LoopId} {x : Executor} {o : Bool}

theorem bound_task (hk : b.kind = .task l) (h : b.phase ≠ .dropped → Sees b.thread b.ctx) : Bound R i b := by
  unfold Bound
  rw [hk]
  split
  · trivial
  · exact h ‹_›
  all_goals cases ‹Kind.task l = Kind.function _ _›

theorem Bound.task (h : Bound R i b) (hk : b.kind = .task l) (hp : b.phase ≠ .dropped) : Sees b.thread b.ctx := by
  unfold Bound at h
  rw [hk] at h
  split at h
  · exact absurd ‹_› hp
  · exact h
  all_goals cases ‹Kind.task l = Kind.function _ _›

theorem bound_queued (hk : b.kind = .function x o) (hp : b.phase = .queued) :
    Bound R i b ↔ i ≠ 0 ∧ (∃ e, x = .currentThread e) ∧ Carries b.ctx := by
  simp only [Bound, hk, hp]

theorem bound_dropped (hk : b.kind = .function x o) (hp : b.phase = .dropped) :
    Bound R i b ↔ i ≠ 0 ∧ Carries b.ctx := by
  simp only [Bound, hk, hp]

theorem bound_blocked {k : BodyId} {old : Option Nat} {context : Context U} (hk : b.kind = .function x o)
    (hp : b.phase = .blocked k old context) :
    Bound R i b ↔ b.thread = R ∧ Carries context ∧ (i ≠ 0 → Sees R b.ctx ∧ old.isSome = true) := by
  simp only [Bound, hk, hp]

theorem bound_running (hk : b.kind = .function x o) (hp : b.phase = .running ∨ b.phase = .ended) :
    Bound R i b ↔ b.thread = R ∧ (i ≠ 0 → Sees R b.ctx) := by
  rcases hp with hp | hp <;> simp only [Bound, hk, hp]

theorem bound_awaiting {j : BodyId} (hk : b.kind = .function x o) (hp : b.phase = .awaiting j) :
    Bound R i b ↔ b.thread = R ∧ (i ≠ 0 → Sees R b.ctx) := by
  simp only [Bound, hk, hp]

/-- A function other than the root has a context with an executor. -/
theorem Bound.carries (h : Bound R i b) (hk : b.kind = .function x o) (hi : i ≠ 0) : Carries b.ctx := by
  cases hp : b.phase with
  | queued => exact ((bound_queued hk hp).1 h).2.2
  | running => exact (((bound_running hk (Or.inl hp)).1 h).2 hi).carries
  | awaiting j => exact (((bound_awaiting hk hp).1 h).2 hi).carries
  | blocked k old context => exact (((bound_blocked hk hp).1 h).2.2 hi).1.carries
  | ended => exact (((bound_running hk (Or.inr hp)).1 h).2 hi).carries
  | dropped => exact ((bound_dropped hk hp).1 h).2

end

/-! ### Changing one body -/

section

variable {R : ThreadId} {s : State U}

theorem TreeInv.setBody (h : TreeInv R s) {i : BodyId} {d : Body U} (hb : Bound R i d)
    (hk : ∀ b, s.bodies i = some b → d.kind = b.kind)
    (hl : ∀ k old c, d.phase = .blocked k old c →
      (∃ x o, d.kind = .function x o) ∧ ∃ y l, s.bodies k = some y ∧ y.kind = .task l)
    (ha : ∀ j, d.phase = .awaiting j → j ≠ 0) : TreeInv R (s.setBody i d) := by
  constructor
  · exact h.workThread
  · rw [State.bodies_setBody]
    split
    · rfl
    · exact h.root
  · intro j b hj
    rw [State.bodies_setBody] at hj
    split at hj
    · next hji =>
      cases hj
      exact hji ▸ hb
    · exact h.bound j b hj
  · intro j b k old c hj hp
    have hlink : (∃ x o, b.kind = .function x o) ∧ ∃ y l, s.bodies k = some y ∧ y.kind = .task l := by
      rw [State.bodies_setBody] at hj
      split at hj
      · cases hj
        exact hl k old c hp
      · exact h.blocked j b k old c hj hp
    obtain ⟨hfun, y, l, hy, hyk⟩ := hlink
    refine ⟨hfun, ?_⟩
    rw [State.bodies_setBody]
    split
    · next hki =>
      subst hki
      exact ⟨d, l, rfl, (hk y hy).trans hyk⟩
    · exact ⟨y, l, hy, hyk⟩
  · intro j b k hj hp
    rw [State.bodies_setBody] at hj
    split at hj
    · cases hj
      exact ha k hp
    · exact h.awaiting j b k hj hp

/-- A body takes a step that does not lead into a call. -/
theorem TreeInv.setOld (h : TreeInv R s) {i : BodyId} {b d : Body U} (hi : s.bodies i = some b)
    (hk : d.kind = b.kind) (hb : Bound R i d) (hl : ∀ k old c, d.phase ≠ .blocked k old c)
    (ha : ∀ j, d.phase ≠ .awaiting j) : TreeInv R (s.setBody i d) := by
  refine h.setBody hb (fun b₁ hb₁ => ?_) (fun k old c hp => absurd hp (hl k old c)) fun j hp => absurd hp (ha j)
  rw [hi] at hb₁
  cases hb₁
  exact hk

theorem TreeInv.setNew (h : TreeInv R s) {j : BodyId} {y : Body U} (hj : s.bodies j = none) (hb : Bound R j y)
    (hl : ∀ k old c, y.phase ≠ .blocked k old c) (ha : ∀ j, y.phase ≠ .awaiting j) : TreeInv R (s.setBody j y) := by
  refine h.setBody hb (fun b₁ hb₁ => ?_) (fun k old c hp => absurd hp (hl k old c)) fun j hp => absurd hp (ha j)
  rw [hj] at hb₁
  cases hb₁

/-- A step of the executors, or of the table of loops. -/
theorem TreeInv.congr (h : TreeInv R s) {s' : State U} (hb : s'.bodies = s.bodies)
    (hw : ∀ e x, s'.execs.execs e = some x → x.workThread = R) : TreeInv R s' :=
  ⟨hw, by rw [hb]; exact h.root, by rw [hb]; exact h.bound, by rw [hb]; exact h.blocked, by rw [hb]; exact h.awaiting⟩

theorem TreeInv.ne_zero (h : TreeInv R s) {j : BodyId} (hj : s.bodies j = none) : j ≠ 0 := by
  rintro rfl
  have hroot := h.root
  rw [hj] at hroot
  cases hroot

end

/-! ### The parts of the steps -/

section

variable {R : ThreadId} {vars : UserVars U}

theorem chooseExecutor_of_sees {c : Context U} {t : ThreadId} (h : Sees t c) (given : Executor) (loop : Option Nat) :
    ∃ e, chooseExecutor ⟨true, given, loop⟩ t c = .ok (.currentThread e, c) := by
  obtain ⟨e, he⟩ := h
  exact ⟨e, by simp only [chooseExecutor, he, if_true]⟩

/-- A queued function comes to run on the root's thread. -/
theorem bound_runChild {j : BodyId} {y : Body U} (h : Bound R j y) (hq : y.phase = .queued) :
    Bound R j (runChild vars y R) := by
  cases hk : y.kind with
  | task l =>
    refine bound_task ((kind_runChild y R).trans hk) fun hp => ?_
    rcases @phase_runChild U vars y R with ⟨-, ht, hr⟩ | hd
    · rw [ht, ctx_runChild]
      exact sees_restoreContext_of_none hr (h.task hk (by simp [hq])).carries
    · exact absurd hd hp
  | function x o =>
    obtain ⟨hj, -, hc⟩ := (bound_queued hk hq).1 h
    rcases @phase_runChild U vars y R with ⟨hp, ht, hr⟩ | hd
    · refine (bound_running ((kind_runChild y R).trans hk) (Or.inl hp)).2 ⟨ht, fun _ => ?_⟩
      rw [ctx_runChild]
      exact sees_restoreContext_of_none hr hc
    · refine (bound_dropped ((kind_runChild y R).trans hk) hd).2 ⟨hj, ?_⟩
      rw [ctx_runChild]
      exact carries_restoreContext hc hc

theorem sees_resumeSync {b y : Body U} (hb : Sees b.thread b.ctx) (hy : Carries y.ctx) (o : Bool) :
    Sees b.thread (resumeSync vars b y o).ctx := by
  have hset : ∀ c : Context U, Sees b.thread c → Sees b.thread (c.setDeadlock false) := fun c ⟨e, he⟩ =>
    ⟨e, (Context.currentExecutor_setDeadlock c b.thread false).trans he⟩
  have hmove : Sees b.thread (restoreContext vars b.thread y.ctx b.ctx).1 := sees_restoreContext hy hb
  unfold resumeSync
  cases o with
  | true => exact hset _ hb
  | false =>
    simp only [Bool.false_eq_true, if_false]
    split <;> rename_i heq <;> rw [heq] at hmove
    · exact hset _ hmove
    · exact hmove

/-- The caller of an `AsyncToSync` can see an executor after it, if it could before. -/
theorem sees_resumeAsync {b : Body U} {old : Option Nat} {context : Context U} (hb : Sees b.thread b.ctx)
    (hc : Carries context) (hold : old.isSome = true) : Sees b.thread (resumeAsync vars b old context).ctx := by
  have hmove : Sees b.thread (restoreContext vars b.thread context b.ctx).1 := sees_restoreContext hc hb
  obtain ⟨e, rfl⟩ := Option.isSome_iff_exists.1 hold
  unfold resumeAsync
  dsimp only
  split <;> rename_i heq <;> rw [heq] at hmove
  · exact sees_setCurrentExecutor _ _ e
  · exact hmove

/-- What a body does by itself. -/
theorem bound_user {i : BodyId} {b : Body U} (h : Bound R i b) (hp : b.phase = .running) (op : UserOp U) :
    Bound R i { b with ctx := op.apply b.thread b.ctx } := by
  have hsees : ∀ t, t = b.thread → Sees t b.ctx → Sees t (op.apply b.thread b.ctx) := by
    rintro t rfl ⟨e, he⟩
    exact ⟨e, (currentExecutor_apply b.thread b.ctx op).trans he⟩
  cases hk : b.kind with
  | task l => exact bound_task rfl fun _ => hsees _ rfl (h.task hk (by simp [hp]))
  | function x o =>
    obtain ⟨ht, hR⟩ := (bound_running hk (Or.inl hp)).1 h
    exact (bound_running rfl (Or.inl (by exact hp))).2 ⟨ht, fun hi => hsees R ht.symm (hR hi)⟩

theorem bound_ended {i : BodyId} {b : Body U} (h : Bound R i b) (hp : b.phase = .running) :
    Bound R i { b with phase := .ended } := by
  cases hk : b.kind with
  | task l => exact bound_task rfl fun _ => h.task hk (by simp [hp])
  | function x o => exact (bound_running rfl (Or.inr rfl)).2 ((bound_running hk (Or.inl hp)).1 h)

/-- A body whose function was refused. -/
theorem bound_refused {i j : BodyId} {b : Body U} (h : Bound R i b) (hp : b.phase = .awaiting j) :
    Bound R i { b with phase := .running } := by
  cases hk : b.kind with
  | task l => exact bound_task rfl fun _ => h.task hk (by simp [hp])
  | function x o => exact (bound_running rfl (Or.inl rfl)).2 ((bound_awaiting hk hp).1 h)

/-- The end of a `SyncToAsync` call. -/
theorem bound_resumeSync {i j : BodyId} {b y : Body U} (h : Bound R i b) (hp : b.phase = .awaiting j)
    (hc : Carries y.ctx) (o : Bool) : Bound R i (resumeSync vars b y o) := by
  cases hk : b.kind with
  | task l =>
    refine bound_task ((kind_resumeSync b y o).trans hk) fun _ => ?_
    rw [thread_resumeSync]
    exact sees_resumeSync (h.task hk (by simp [hp])) hc o
  | function x' o' =>
    obtain ⟨ht, hR⟩ := (bound_awaiting hk hp).1 h
    refine (bound_running ((kind_resumeSync b y o).trans hk) (Or.inl (phase_resumeSync b y o))).2
      ⟨(thread_resumeSync b y o).trans ht, fun hi => ?_⟩
    subst ht
    exact sees_resumeSync (hR hi) hc o

/-- The coroutine of an `AsyncToSync` call: `main_wrap` has given it the context of its caller. -/
theorem bound_coroutine {k : BodyId} {b : Body U} {context : Context U} (hc : Carries context) (base : Context U)
    (l : LoopId) (t : ThreadId) : Bound R k (coroutine vars b context base l t) := by
  refine bound_task rfl fun hd => ?_
  rcases @phase_coroutine U vars b context base l t with ⟨-, hr⟩ | hr
  · exact sees_restoreContext_of_none hr hc
  · exact absurd hr hd

/-- The end of an `AsyncToSync` call, with or without what its coroutine has stored. -/
theorem bound_resumeAsync {i k : BodyId} {b : Body U} {old : Option Nat} {context context' : Context U} {x : Executor}
    {o : Bool} (h : Bound R i b) (hk : b.kind = .function x o) (hp : b.phase = .blocked k old context)
    (hc : Carries context') (reset : Bool) :
    Bound R i { resumeAsync vars b old context' with reset := reset } := by
  obtain ⟨ht, -, hsees⟩ := (bound_blocked hk hp).1 h
  refine (bound_running (by exact hk) (Or.inl rfl)).2 ⟨ht, fun hi => ?_⟩
  obtain ⟨hb, hold⟩ := hsees hi
  subst ht
  exact sees_resumeAsync hb hc hold

end

/-! ### The steps -/

section

variable {R worker : ThreadId} {vars : UserVars U}

theorem TreeInv.setRunChild {s : State U} (h : TreeInv R s) {j : BodyId} {y : Body U} (hy : s.bodies j = some y)
    (hq : y.phase = .queued) : TreeInv R (s.setBody j (runChild vars y R)) := by
  have hphase := @phase_runChild U vars y R
  refine h.setOld hy (kind_runChild y R) (bound_runChild (h.bound j y hy) hq) (fun k old c hp => ?_) fun k hp => ?_
  all_goals rcases hphase with ⟨hr, -⟩ | hr <;> rw [hr] at hp <;> cases hp

/-- A function that is not run. -/
theorem TreeInv.setDropped {s : State U} (h : TreeInv R s) {j : BodyId} {y : Body U} (hy : s.bodies j = some y)
    (hq : y.phase = .queued) : TreeInv R (s.setBody j { y with phase := .dropped }) := by
  refine h.setOld hy rfl ?_ (by simp) (by simp)
  cases hk : y.kind with
  | task l => exact bound_task rfl fun hp => absurd rfl hp
  | function x o =>
    obtain ⟨hj, -, hc⟩ := (bound_queued hk hq).1 (h.bound j y hy)
    exact (bound_dropped rfl rfl).2 ⟨hj, hc⟩

/-- The step into a `SyncToAsync` call. -/
theorem TreeInv.setAwaiting {s : State U} (h : TreeInv R s) {i j : BodyId} {b : Body U} {l : LoopId} {e : Nat}
    (hb : s.bodies i = some b) (hk : b.kind = .task l) (hj : s.bodies j = none) (hsees : Sees b.thread b.ctx) :
    TreeInv R ((s.setBody j (child b b.ctx j true (.currentThread e) none)).setBody i { b with phase := .awaiting j }) := by
  have hj0 := h.ne_zero hj
  have hchild : TreeInv R (s.setBody j (child b b.ctx j true (.currentThread e) none)) :=
    h.setNew hj ((bound_queued rfl rfl).2 ⟨hj0, ⟨e, rfl⟩, hsees.carries⟩) (by simp [child]) (by simp [child])
  refine hchild.setBody (bound_task (by exact hk) fun _ => hsees) (fun b₁ hb₁ => ?_) (by simp) fun k hk => ?_
  · cases (State.bodies_setBody_of_ne (State.ne_of_eq_none hb hj) hb).symm.trans hb₁
    rfl
  · cases hk
    exact hj0

/-- The step into an `AsyncToSync` call. -/
theorem TreeInv.setBlocked {s : State U} (h : TreeInv R s) {i k : BodyId} {b : Body U} {x : Executor} {o : Bool}
    (hb : s.bodies i = some b) (hp : b.phase = .running) (hk : b.kind = .function x o) (hnone : s.bodies k = none)
    (e : Nat) (base : Context U) (l : LoopId) (t : ThreadId) :
    TreeInv R ((s.setBody k (coroutine vars b (b.ctx.setCurrentExecutor b.thread (some e)) base l t)).setBody i
      { b with
        ctx := b.ctx.setCurrentExecutor b.thread (some e)
        phase := .blocked k (b.ctx.currentExecutor b.thread) (b.ctx.setCurrentExecutor b.thread (some e)) }) := by
  obtain ⟨ht, hR⟩ := (bound_running hk (Or.inl hp)).1 (h.bound i b hb)
  have hsees : Sees b.thread (b.ctx.setCurrentExecutor b.thread (some e)) := sees_setCurrentExecutor b.ctx b.thread e
  have hphase := @phase_coroutine U vars b (b.ctx.setCurrentExecutor b.thread (some e)) base l t
  have hcoroutine : TreeInv R (s.setBody k (coroutine vars b (b.ctx.setCurrentExecutor b.thread (some e)) base l t)) := by
    refine h.setNew hnone (bound_coroutine hsees.carries base l t) (fun k' old c' hp' => ?_) fun j hp' => ?_
    all_goals rcases hphase with ⟨hr, -⟩ | hr <;> rw [hr] at hp' <;> cases hp'
  refine hcoroutine.setBody ?_ (fun b₁ hb₁ => ?_) (fun k' old c' hp' => ?_) (by simp)
  · refine (bound_blocked (by exact hk) rfl).2 ⟨ht, hsees.carries, fun hi => ⟨ht ▸ hsees, ?_⟩⟩
    obtain ⟨e', he'⟩ := hR hi
    rw [ht, he']
    rfl
  · cases (State.bodies_setBody_of_ne (State.ne_of_eq_none hb hnone) hb).symm.trans hb₁
    rfl
  · cases hp'
    refine ⟨⟨x, o, hk⟩, coroutine vars b (b.ctx.setCurrentExecutor b.thread (some e)) base l t, l, ?_, rfl⟩
    rw [State.bodies_setBody, if_pos rfl]

theorem treeInv_step {s s' : State U} {a : Action U} (h : TreeInv R s) (ha : InTree a)
    (hs : (machine vars worker).step s a = some s') : TreeInv R s' := by
  have hto : StepTo vars worker s a s' := stepTo_of_step hs
  cases hto with
  | @user i op b hb hp => exact h.setOld hb rfl (bound_user (h.bound i b hb) hp op) (by simp [hp]) (by simp [hp])
  | @createTask i j b l hb hp hk hj =>
    have hsees := (h.bound i b hb).task hk (by simp [hp])
    exact h.setNew hj (bound_task (by exact hk) fun _ => hsees) (by simp [hp]) (by simp [hp])
  | driveLoop => exact ha.elim
  | callSyncRaised => exact h
  | @callSync i j ts given own b l x c execs hb hp hk hj hc hx =>
    obtain ⟨rfl, rfl⟩ := ha
    have hsees := (h.bound i b hb).task hk (by simp [hp])
    obtain ⟨e, he⟩ := chooseExecutor_of_sees hsees given (s.loopExecutors l)
    rw [he] at hc
    cases hc
    refine (h.setAwaiting hb hk hj hsees).congr rfl ?_
    rcases hx with ⟨hx, -⟩ | ⟨e', -, hsubmit⟩
    · exact absurd rfl (hx e)
    · exact workThread_step h.workThread (by simp) hsubmit
  | @refuse i j b y hb hp hy hq =>
    have hij : i ≠ j := State.ne_of_phase hb hy (by rw [hp, hq]; nofun)
    exact (h.setDropped hy hq).setOld (State.bodies_setBody_of_ne hij hb) rfl (bound_refused (h.bound i b hb) hp) (by simp)
      (by simp)
  | @startSingle j t y o hy hq hk hbusy =>
    obtain ⟨-, ⟨e, he⟩, -⟩ := (bound_queued hk hq).1 (h.bound j y hy)
    cases he
  | @startPool j t y x o hy hq hk hx =>
    obtain ⟨-, ⟨e, he⟩, -⟩ := (bound_queued hk hq).1 (h.bound j y hy)
    exact absurd he (hx e)
  | drop hy hq => exact h.setDropped hy hq
  | exec hi hexecs =>
    refine h.congr rfl (workThread_step h.workThread ?_ hexecs)
    rintro e t old rfl
    cases hi
  | @startItem e x j y execs hx hpc hy hq hexecs =>
    have hchild : TreeInv R (s.setBody j (runChild vars y x.workThread)) := by
      rw [h.workThread e x hx]
      exact h.setRunChild hy hq
    exact hchild.congr rfl (workThread_step h.workThread (by simp) hexecs)
  | dropItem hy hq hexecs => exact (h.setDropped hy hq).congr rfl (workThread_step h.workThread (by simp) hexecs)
  | @endBody i b hb hp =>
    have hend : TreeInv R (s.setBody i { b with phase := .ended }) :=
      h.setOld hb rfl (bound_ended (h.bound i b hb) hp) (by simp) (by simp)
    exact hend.congr rfl h.workThread
  | @resumeSync i j b y x o hb hp hy hyk =>
    have hc : Carries y.ctx := (h.bound j y hy).carries hyk (h.awaiting i b j hb hp)
    exact h.setOld hb (kind_resumeSync b y o) (bound_resumeSync (h.bound i b hb) hp hc o) (by simp) (by simp)
  | @callAsync i k e l t base b x o c execs hb hp hk hnone hexecs =>
    refine (h.setBlocked hb hp hk hnone e c l t).congr rfl (workThread_step h.workThread ?_ hexecs)
    rintro e' t' old hcreate
    cases hcreate
    exact ((bound_running hk (Or.inl hp)).1 (h.bound i b hb)).1
  | @resumeStored i k b y old context hb hp hy hq =>
    obtain ⟨⟨x, o, hk⟩, y', l, hy', hyk⟩ := h.blocked i b k old context hb hp
    rw [hy] at hy'
    cases hy'
    have hc : Carries y.ctx := ((h.bound k y hy).task hyk (by simp [hq])).carries
    exact h.setOld hb rfl (bound_resumeAsync (h.bound i b hb) hk hp hc _) (by simp [resumeAsync]) (by simp [resumeAsync])
  | @resumeEarly i k b old context hb hp =>
    obtain ⟨⟨x, o, hk⟩, -⟩ := h.blocked i b k old context hb hp
    have hc : Carries context := ((bound_blocked hk hp).1 (h.bound i b hb)).2.1
    exact h.setOld hb rfl (bound_resumeAsync (h.bound i b hb) hk hp hc b.reset) (by simp [resumeAsync])
      (by simp [resumeAsync])
  | closeLoop => exact h.congr rfl h.workThread

theorem treeInv_init (x : Executor) (o : Bool) (R : ThreadId) (c : Context U) :
    TreeInv R (State.init (.function x o) R c) := by
  have hbody : ∀ i b, (State.init (.function x o) R c).bodies i = some b →
      i = 0 ∧ b = ⟨.function x o, R, c, .running, none, false, []⟩ := by
    intro i b hb
    simp only [State.init, Function.update_apply] at hb
    split at hb <;> cases hb
    exact ⟨‹_›, rfl⟩
  refine ⟨nofun, by simp [State.init], fun i b hb => ?_, fun i b k old c' hb hp => ?_, fun i b j hb hp => ?_⟩
  · obtain ⟨rfl, rfl⟩ := hbody i b hb
    exact (bound_running rfl (Or.inl rfl)).2 ⟨rfl, fun h => absurd rfl h⟩
  · obtain ⟨rfl, rfl⟩ := hbody i b hb
    cases hp
  · obtain ⟨rfl, rfl⟩ := hbody i b hb
    cases hp

end

/-! ### The executor visible to a caller -/

section

/-- After each `AsyncToSync` call the executor is visible that was visible before it. -/
def Restored (s : State U) : Prop := ∀ i b p, s.bodies i = some b → p ∈ b.returns → p.2 = p.1

/-- The condition on the steps: in the `finally` block of an `AsyncToSync` call no comparison raises. -/
def HandsBack (vars : UserVars U) (s : State U) : Action U → Prop
  | .resumeAsync i stored => ∀ b k old context, s.bodies i = some b → b.phase = .blocked k old context →
      if stored then ∀ y, s.bodies k = some y → ¬ Raises vars y.ctx b.ctx else ¬ Raises vars context b.ctx
  | _ => True

variable {worker : ThreadId} {vars : UserVars U}

theorem Restored.setBody {s : State U} (h : Restored s) {i : BodyId} {b' : Body U} (hb : ∀ p ∈ b'.returns, p.2 = p.1) :
    Restored (s.setBody i b') := by
  intro j b p hj hp
  rw [State.bodies_setBody] at hj
  split at hj
  · cases hj
    exact hb p hp
  · exact h j b p hj hp

theorem Restored.setReturned {s : State U} (h : Restored s) {i : BodyId} {b : Body U} (hb : s.bodies i = some b)
    {old : Option Nat} {context : Context U} (hr : ¬ Raises vars context b.ctx) (reset : Bool) :
    Restored (s.setBody i { resumeAsync vars b old context with reset := reset }) := by
  have hend : (restoreContext vars b.thread context b.ctx).2 = none := restoreContext_snd_eq_none.2 hr
  refine h.setBody fun p hp => ?_
  rcases List.mem_append.1 (show p ∈ b.returns ++ [_] from hp) with hp | hp
  · exact h i b p hb hp
  · rw [List.mem_singleton.1 hp]
    dsimp only
    split <;> rename_i heq <;> rw [heq] at hend
    · exact Context.currentExecutor_setCurrentExecutor _ _ _
    · cases hend

theorem restored_step {s s' : State U} {a : Action U} (h : Restored s) (ha : HandsBack vars s a)
    (hs : (machine vars worker).step s a = some s') : Restored s' := by
  have hto : StepTo vars worker s a s' := stepTo_of_step hs
  cases hto with
  | user hb | drop hb | endBody hb => exact h.setBody fun p hp => h _ _ p hb hp
  | createTask | driveLoop => exact h.setBody nofun
  | callSyncRaised => exact h
  | callSync hb =>
    refine Restored.setBody (Restored.setBody h ?_) fun p hp => h _ _ p hb hp
    exact fun p hp => absurd hp List.not_mem_nil
  | refuse hb hp hy =>
    refine Restored.setBody (Restored.setBody h ?_) fun p hp => h _ _ p hb hp
    exact fun p hp => h _ _ p hy hp
  | startSingle hy | startPool hy => exact h.setBody fun p hp => h _ _ p hy (by simpa using hp)
  | exec => exact h
  | startItem hx hpc hy => exact h.setBody fun p hp => h _ _ p hy (by simpa using hp)
  | dropItem hy => exact h.setBody fun p hp => h _ _ p hy hp
  | resumeSync hb => exact h.setBody fun p hp => h _ _ p hb (by simpa using hp)
  | callAsync hb =>
    refine Restored.setBody (Restored.setBody h ?_) fun p hp => h _ _ p hb hp
    exact fun p hp => absurd hp List.not_mem_nil
  | resumeStored hb hp hy => exact h.setReturned hb (ha _ _ _ _ hb hp _ hy) _
  | @resumeEarly i k b old context hb hp => exact h.setReturned hb (ha _ _ _ _ hb hp) b.reset
  | closeLoop => exact h

/-- **Thread affinity.**  In every tree of thread-sensitive calls every function that is run is run by the thread of the
root.  If no comparison raises in the `finally` block of an `AsyncToSync` call, the executor visible after each such call
is the one visible before it. -/
theorem affinity {x : Executor} {o : Bool} {R : ThreadId} {c : Context U} {s : State U} {as : List (Action U)}
    (hrun : (machine vars worker).run (State.init (.function x o) R c) as = some s) (htree : ∀ a ∈ as, InTree a) :
    (∀ j b x o, s.bodies j = some b → b.kind = .function x o → b.phase ≠ .queued → b.phase ≠ .dropped → b.thread = R) ∧
    ((machine vars worker).Meets (HandsBack vars) (State.init (.function x o) R c) as → Restored s) := by
  constructor
  · have h : TreeInv R s := (machine vars worker).run_invariant_of_meets (fun _ _ _ h ha hs => treeInv_step h ha hs)
      (treeInv_init x o R c) ((machine vars worker).meets_of_forall (fun a ha _ => htree a ha) _) hrun
    intro j b x o hb hk hq hd
    have hbound := h.bound j b hb
    cases hp : b.phase with
    | queued => exact absurd hp hq
    | dropped => exact absurd hp hd
    | running => exact ((bound_running hk (Or.inl hp)).1 hbound).1
    | ended => exact ((bound_running hk (Or.inr hp)).1 hbound).1
    | awaiting k => exact ((bound_awaiting hk hp).1 hbound).1
    | blocked k old context => exact ((bound_blocked hk hp).1 hbound).1
  · intro hmeets
    refine (machine vars worker).run_invariant_of_meets (fun _ _ _ h ha hs => restored_step h ha hs) ?_ hmeets hrun
    intro i b p hb hp
    simp only [State.init, Function.update_apply] at hb
    split at hb <;> cases hb
    cases hp

end

end

/-! ### A tree with two levels -/

/-- The main program on thread 1, with an empty context. -/
def mainProgram : State Nat := .init (.function .loopDefault false) 1 ∅

/-- The root calls a coroutine on a new loop, on thread 2, which awaits a function: thread 1 runs it. -/
def twoLevels : List (Action Nat) :=
  [.callAsync 0 1 0 0 2 .empty, .exec (.enter 0 1), .callSync 1 2 true .loopDefault none, .exec (.walk 2),
    .exec (.loop 0), .startItem 0, .endBody 2, .resumeSync 1, .endBody 1, .resumeAsync 0 true]

theorem affinity_twoLevels : ∃ s b, (machine numbers 7).run mainProgram twoLevels = some s ∧ s.bodies 2 = some b ∧
    b.thread = 1 ∧ Restored s := by
  have htree : ∀ a ∈ twoLevels, InTree a := by simp [twoLevels, InTree]
  have hmeets : (machine numbers 7).Meets (HandsBack numbers) mainProgram twoLevels := by
    refine (machine numbers 7).meets_of_forall (fun a _ s => ?_) _
    cases a with
    | resumeAsync i stored =>
      cases stored with
      | true => exact fun _ _ _ _ _ _ _ _ ⟨_, _, _, _, _, _, he, _⟩ => nomatch he
      | false => exact fun _ _ _ _ _ _ ⟨_, _, _, _, _, _, he, _⟩ => nomatch he
    | _ => trivial
  obtain ⟨hthread, hrestored⟩ := @affinity Nat 7 numbers .loopDefault false 1 ∅ _ twoLevels rfl htree
  exact ⟨_, _, rfl, rfl, hthread 2 _ (.currentThread 0) false rfl rfl nofun nofun, hrestored hmeets⟩

/-- The root binds a variable to an array and calls a coroutine on a new loop, which binds it to another one. -/
def arrayCall : List (Action Nat) :=
  [.user 0 (.setVar 0 0), .callAsync 0 1 0 0 2 .empty, .user 1 (.setVar 0 1), .endBody 1, .resumeAsync 0 true]

/-- **The executor of the call stays visible**: a comparison raises in the `finally` block, before the old one is
restored. -/
theorem executor_left : ¬ ∀ (as : List (Action Nat)) (s : State Nat), (∀ a ∈ as, InTree a) →
    (machine arrays 7).run mainProgram as = some s → Restored s := by
  intro h
  have hleft := h arrayCall _ (by simp [arrayCall, InTree]) rfl 0 _ (none, some 0) rfl (List.mem_singleton.2 rfl)
  cases hleft

end Asgiref.Sync.Calls
