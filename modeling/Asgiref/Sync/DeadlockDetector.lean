import Asgiref.Sync.Calls

/-!
# The deadlock detector

`SyncToAsync` raises a flag in the context of a function it hands to the single thread, and lowers a flag in the
`finally` block of every call.

* `Flags` — the flag is up in every context that descends from the function's and has seen no call end;
* `FlagInv`, `flagInv_step` — the invariant;
* `deadlock_detected` — there the detector speaks; `deadlock_missed` — a run in which it is silent.
-/

namespace Asgiref.Sync.Calls

open Asgiref.Python Asgiref.Lib

section

variable {U : Type}

/-- The flag is up in the context `c`, if it descends from that of a function whose call was plain and no call has
ended on the way. -/
def Flags (o : Option Origin) (reset : Bool) (c : Context U) : Prop :=
  ∀ f, o = some ⟨f, true⟩ → reset = false → c.deadlock = true

/-- The flags are up in the contexts of all bodies, and in those that calls of `AsyncToSync` have copied. -/
structure FlagInv (s : State U) : Prop where
  flags : ∀ i b, s.bodies i = some b → Flags b.origin b.reset b.ctx ∨ b.phase = .dropped
  blocked : ∀ i b k old c, s.bodies i = some b → b.phase = .blocked k old c →
    Flags b.origin b.reset c ∧ ∃ y, s.bodies k = some y ∧ y.origin = b.origin

theorem FlagInv.setBody {s : State U} (h : FlagInv s) {i : BodyId} {d : Body U}
    (hf : Flags d.origin d.reset d.ctx ∨ d.phase = .dropped)
    (hl : ∀ k old c, d.phase = .blocked k old c →
      Flags d.origin d.reset c ∧ ∃ y, s.bodies k = some y ∧ y.origin = d.origin)
    (ho : ∀ b, s.bodies i = some b → d.origin = b.origin) : FlagInv (s.setBody i d) := by
  constructor
  · intro j b hb
    rw [State.bodies_setBody] at hb
    split at hb
    · cases hb
      exact hf
    · exact h.flags j b hb
  · intro j b k old c hb hp
    have hlink : Flags b.origin b.reset c ∧ ∃ y, s.bodies k = some y ∧ y.origin = b.origin := by
      rw [State.bodies_setBody] at hb
      split at hb
      · cases hb
        exact hl k old c hp
      · exact h.blocked j b k old c hb hp
    obtain ⟨hc, y, hy, hyo⟩ := hlink
    refine ⟨hc, ?_⟩
    rw [State.bodies_setBody]
    split
    · next hk =>
      subst hk
      exact ⟨d, rfl, (ho y hy).trans hyo⟩
    · exact ⟨y, hy, hyo⟩

/-- A body takes a step that does not lead into an `AsyncToSync` call. -/
theorem FlagInv.setOld {s : State U} (h : FlagInv s) {i : BodyId} {b d : Body U} (hb : s.bodies i = some b)
    (ho : d.origin = b.origin) (hf : Flags d.origin d.reset d.ctx ∨ d.phase = .dropped)
    (hl : ∀ k old c, d.phase ≠ .blocked k old c) : FlagInv (s.setBody i d) := by
  refine h.setBody hf (fun k old c hp => absurd hp (hl k old c)) fun b₁ hb₁ => ?_
  rw [hb] at hb₁
  cases hb₁
  exact ho

theorem FlagInv.setNew {s : State U} (h : FlagInv s) {j : BodyId} {y : Body U} (hj : s.bodies j = none)
    (hf : Flags y.origin y.reset y.ctx ∨ y.phase = .dropped) (hl : ∀ k old c, y.phase ≠ .blocked k old c) :
    FlagInv (s.setBody j y) := by
  refine h.setBody hf (fun k old c hp => absurd hp (hl k old c)) fun b₁ hb₁ => ?_
  rw [hj] at hb₁
  cases hb₁

/-! ### The parts of the steps -/

variable {vars : UserVars U}

theorem flags_runChild {y : Body U} (h : Flags y.origin y.reset y.ctx) (t : ThreadId) :
    Flags (runChild vars y t).origin (runChild vars y t).reset (runChild vars y t).ctx := by
  intro f ho hr
  rw [origin_runChild] at ho
  rw [reset_runChild] at hr
  rw [ctx_runChild]
  exact deadlock_restoreContext (h f ho hr) (h f ho hr)

theorem FlagInv.setRunChild {s : State U} (h : FlagInv s) {j : BodyId} {y : Body U} (hy : s.bodies j = some y)
    (hq : y.phase = .queued) (t : ThreadId) : FlagInv (s.setBody j (runChild vars y t)) := by
  have hf : Flags y.origin y.reset y.ctx := (h.flags j y hy).resolve_right (by simp [hq])
  refine h.setOld hy (origin_runChild y t) (Or.inl (flags_runChild hf t)) fun k old c hp => ?_
  rcases phase_runChild y t with ⟨hr, -⟩ | hr <;> rw [hr] at hp <;> cases hp

/-- The context handed to a function: that of a plain call for the single thread has its flag up. -/
theorem flags_child {b : Body U} (h : Flags b.origin b.reset b.ctx) {ts : Bool} {given x : Executor} {loop : Option Nat}
    {c : Context U} (hc : chooseExecutor ⟨ts, given, loop⟩ b.thread b.ctx = .ok (x, c)) (j : BodyId)
    (own : Option (Context U)) :
    Flags (child b c j ts x own).origin (child b c j ts x own).reset (child b c j ts x own).ctx ∧
      Flags b.origin b.reset c := by
  have hb : Flags b.origin b.reset c := by
    rcases chooseExecutor_eq_ok hc with ⟨rfl, -⟩ | ⟨-, -, -, rfl⟩
    · exact h
    · exact fun _ _ _ => Context.deadlock_setDeadlock b.ctx true
  refine ⟨fun f ho hr => ?_, hb⟩
  by_cases hx : x = .singleThread
  · simp only [child, hx, if_true, Option.some.injEq, Origin.mk.injEq, Bool.and_eq_true, Option.isNone_iff_eq_none] at ho
    obtain ⟨-, hts, rfl⟩ := ho
    rcases chooseExecutor_eq_ok hc with ⟨-, -, hne⟩ | ⟨-, -, -, rfl⟩
    · exact absurd hx (hne hts)
    · exact Context.deadlock_setDeadlock b.ctx true
  · simp only [child, hx, if_false] at ho hr
    cases own with
    | some c' => cases ho
    | none => exact hb f ho hr

theorem flags_coroutine {b : Body U} (h : Flags b.origin b.reset b.ctx) (e : Nat) (base : Context U) (l : LoopId)
    (t : ThreadId) :
    let y := coroutine vars b (b.ctx.setCurrentExecutor b.thread (some e)) base l t
    Flags y.origin y.reset y.ctx ∨ y.phase = .dropped := by
  intro y
  rcases phase_coroutine b (b.ctx.setCurrentExecutor b.thread (some e)) base l t with ⟨-, hr⟩ | hdropped
  · refine Or.inl fun f ho hreset => deadlock_restoreContext_of_none hr ?_
    rw [Context.deadlock_setCurrentExecutor]
    exact h f ho hreset
  · exact Or.inr hdropped

/-- The context that is left by the `finally` block of `AsyncToSync`. -/
theorem deadlock_resumeAsync {b : Body U} {old : Option Nat} {context : Context U} (h : b.ctx.deadlock = true)
    (hc : context.deadlock = true) : (resumeAsync vars b old context).ctx.deadlock = true := by
  have hup : (restoreContext vars b.thread context b.ctx).1.deadlock = true := deadlock_restoreContext hc h
  unfold resumeAsync
  dsimp only
  split <;> rename_i heq <;> rw [heq] at hup
  · rw [Context.deadlock_setCurrentExecutor]
    exact hup
  · exact hup

/-! ### The steps -/

variable {worker : ThreadId}

/-- The step into a `SyncToAsync` call. -/
theorem FlagInv.setAwaiting {s : State U} (h : FlagInv s) {i j : BodyId} {b : Body U} (hb : s.bodies i = some b)
    (hj : s.bodies j = none) (hf : Flags b.origin b.reset b.ctx) {ts : Bool} {given x : Executor} {loop : Option Nat}
    {c : Context U} (hc : chooseExecutor ⟨ts, given, loop⟩ b.thread b.ctx = .ok (x, c)) (own : Option (Context U)) :
    FlagInv ((s.setBody j (child b c j ts x own)).setBody i { b with ctx := c, phase := .awaiting j }) := by
  obtain ⟨hy, hbc⟩ := flags_child hf hc j own
  have hchild : FlagInv (s.setBody j (child b c j ts x own)) := h.setNew hj (Or.inl hy) (by simp [child])
  exact hchild.setOld (State.bodies_setBody_of_ne (State.ne_of_eq_none hb hj) hb) rfl (Or.inl hbc) (by simp)

/-- The step into an `AsyncToSync` call. -/
theorem FlagInv.setBlocked {s : State U} (h : FlagInv s) {i k : BodyId} {b : Body U} (hb : s.bodies i = some b)
    (hnone : s.bodies k = none) (hf : Flags b.origin b.reset b.ctx) (e : Nat) (base : Context U) (l : LoopId)
    (t : ThreadId) :
    FlagInv ((s.setBody k (coroutine vars b (b.ctx.setCurrentExecutor b.thread (some e)) base l t)).setBody i
      { b with
        ctx := b.ctx.setCurrentExecutor b.thread (some e)
        phase := .blocked k (b.ctx.currentExecutor b.thread) (b.ctx.setCurrentExecutor b.thread (some e)) }) := by
  have hc : Flags b.origin b.reset (b.ctx.setCurrentExecutor b.thread (some e)) :=
    fun f ho hr => (Context.deadlock_setCurrentExecutor ..).trans (hf f ho hr)
  have hcoroutine : FlagInv (s.setBody k (coroutine vars b (b.ctx.setCurrentExecutor b.thread (some e)) base l t)) :=
    h.setNew hnone (flags_coroutine hf e base l t) fun k' old c' hp' => by
      rcases phase_coroutine b _ base l t with ⟨hr, -⟩ | hr <;> rw [hr] at hp' <;> cases hp'
  refine hcoroutine.setBody (Or.inl hc) (fun k' old c' hp' => ?_) fun b₁ hb₁ => ?_
  · cases hp'
    refine ⟨hc, coroutine vars b (b.ctx.setCurrentExecutor b.thread (some e)) base l t, ?_, rfl⟩
    rw [State.bodies_setBody, if_pos rfl]
  · cases (State.bodies_setBody_of_ne (State.ne_of_eq_none hb hnone) hb).symm.trans hb₁
    rfl

theorem flagInv_step {s s' : State U} {a : Action U} (h : FlagInv s) (hs : (machine vars worker).step s a = some s') :
    FlagInv s' := by
  have hto : StepTo vars worker s a s' := stepTo_of_step hs
  -- a body that takes a step is not one that was never run
  have hflags : ∀ {i b}, s.bodies i = some b → b.phase ≠ .dropped → Flags b.origin b.reset b.ctx :=
    fun hb hp => (h.flags _ _ hb).resolve_right hp
  cases hto with
  | @user i op b hb hp =>
    have hf := hflags hb (by simp [hp])
    refine h.setOld hb rfl (Or.inl fun f ho hr => ?_) (by simp [hp])
    exact (deadlock_apply b.thread b.ctx op).trans (hf f ho hr)
  | createTask hb hp hk hj =>
    have hf := hflags hb (by simp [hp])
    exact h.setNew hj (Or.inl hf) (by simp [hp])
  | driveLoop hb hp hk hj =>
    have hf := hflags hb (by simp [hp])
    exact h.setNew hj (Or.inl hf) (by simp [hp])
  | callSyncRaised => exact h
  | @callSync i j ts given own b l x c execs hb hp hk hj hc hx =>
    have hcall := h.setAwaiting hb hj (hflags hb (by simp [hp])) hc own
    exact ⟨hcall.flags, hcall.blocked⟩
  | @refuse i j b y hb hp hy hyp =>
    have hf := hflags hb (by simp [hp])
    have hij : i ≠ j := State.ne_of_phase hb hy (by rw [hp, hyp]; nofun)
    have h₁ : FlagInv (s.setBody j { y with phase := .dropped }) := h.setOld hy rfl (Or.inr rfl) (by simp)
    exact h₁.setOld (State.bodies_setBody_of_ne hij hb) rfl (Or.inl hf) (by simp)
  | @startSingle j t y o hy hyp hk hbusy =>
    have h₁ : FlagInv (s.setBody j (runChild vars y worker)) := h.setRunChild hy hyp worker
    exact ⟨h₁.flags, h₁.blocked⟩
  | @startPool j t y x o hy hyp hk hx hx' => exact h.setRunChild hy hyp t
  | drop hy hyp => exact h.setOld hy rfl (Or.inr rfl) (by simp)
  | exec ha hexecs => exact ⟨h.flags, h.blocked⟩
  | @startItem e x j y execs hx hpc hy hyp hexecs =>
    have h₁ : FlagInv (s.setBody j (runChild vars y x.workThread)) := h.setRunChild hy hyp _
    exact ⟨h₁.flags, h₁.blocked⟩
  | @dropItem e j y execs hy hyp hexecs =>
    have h₁ : FlagInv (s.setBody j { y with phase := .dropped }) := h.setOld hy rfl (Or.inr rfl) (by simp)
    exact ⟨h₁.flags, h₁.blocked⟩
  | @endBody i b hb hp =>
    have hf := hflags hb (by simp [hp])
    have h₁ : FlagInv (s.setBody i { b with phase := .ended }) := h.setOld hb rfl (Or.inl hf) (by simp)
    exact ⟨h₁.flags, h₁.blocked⟩
  | resumeSync hb hp hy hk =>
    refine h.setOld hb (origin_resumeSync ..) (Or.inl ?_) (by simp [phase_resumeSync])
    rw [reset_resumeSync]
    exact fun _ _ hr => by cases hr
  | @callAsync i k e l t base b x o c execs hb hp hk hnone hexecs =>
    have hcall := @FlagInv.setBlocked _ vars _ h _ _ _ hb hnone (hflags hb (by simp [hp])) e c l t
    exact ⟨hcall.flags, hcall.blocked⟩
  | @resumeStored i k b y old context hb hp hy hyp =>
    have hf := hflags hb (by simp [hp])
    have hfy := hflags hy (by simp [hyp])
    obtain ⟨-, y', hy', ho⟩ := h.blocked i b k old context hb hp
    rw [hy] at hy'
    cases hy'
    refine h.setOld hb rfl (Or.inl fun f horigin hr => ?_) (by simp [resumeAsync])
    simp only [Bool.or_eq_false_iff] at hr
    exact deadlock_resumeAsync (hf f horigin hr.1) (hfy f (ho.trans horigin) hr.2)
  | @resumeEarly i k b old context hb hp =>
    have hf := hflags hb (by simp [hp])
    obtain ⟨hc, -⟩ := h.blocked i b k old context hb hp
    refine h.setOld hb rfl (Or.inl fun f horigin hr => ?_) (by simp [resumeAsync])
    exact deadlock_resumeAsync (hf f horigin hr) (hc f horigin hr)
  | closeLoop => exact ⟨h.flags, h.blocked⟩

theorem flagInv_init (kind : Kind) (t : ThreadId) (c : Context U) : FlagInv (State.init kind t c) := by
  have hbody : ∀ i b, (State.init kind t c).bodies i = some b → b = ⟨kind, t, c, .running, none, false, []⟩ := by
    intro i b hb
    simp only [State.init, Function.update_apply] at hb
    split at hb <;> cases hb
    rfl
  constructor
  · intro i b hb
    rw [hbody i b hb]
    exact Or.inl nofun
  · intro i b k old c' hb hp
    rw [hbody i b hb] at hp
    cases hp

/-! ### Runs -/

/-- **The detector speaks** in every context that descends from that of a function `f` of the single thread, if the call
of `f` was thread-sensitive and without a context of its own and no call has ended on the way: a thread-sensitive call
that finds no executor raises, and none is handed to the single thread. -/
theorem deadlock_detected {kind : Kind} {t : ThreadId} {c : Context U} {s : State U} {as : List (Action U)}
    (hrun : (machine vars worker).run (State.init kind t c) as = some s) {f i : BodyId} {b : Body U}
    (hb : s.bodies i = some b) (hp : b.phase = .running) (horigin : b.origin = some ⟨f, true⟩) (hreset : b.reset = false)
    (given : Executor) (loop : Option Nat) :
    (FindsNone ⟨true, given, loop⟩ b.thread b.ctx →
      chooseExecutor ⟨true, given, loop⟩ b.thread b.ctx = .error deadlockError) ∧
    ∀ x c', chooseExecutor ⟨true, given, loop⟩ b.thread b.ctx = .ok (x, c') → x ≠ .singleThread := by
  have h : FlagInv s := (machine vars worker).run_invariant (fun _ _ _ h hs => flagInv_step h hs) (flagInv_init kind t c) hrun
  have hup : b.ctx.deadlock = true := (h.flags i b hb).resolve_right (by simp [hp]) f horigin hreset
  constructor
  · intro hnone
    rw [chooseExecutor_of_findsNone hnone, if_pos hup]
  · intro x c' hok
    rcases chooseExecutor_eq_ok hok with ⟨-, -, hx⟩ | ⟨-, hdown, -⟩
    · exact hx rfl
    · rw [hup] at hdown
      cases hdown

/-- **After a call has ended the detector is silent** in that context: a call that finds no executor is handed to the
single thread, busy or not. -/
theorem silent_after_return (b y : Body U) (k : Choice) (hr : ¬ Raises vars y.ctx b.ctx)
    (hnone : FindsNone k b.thread (resumeSync vars b y false).ctx) :
    ∃ c, chooseExecutor k b.thread (resumeSync vars b y false).ctx = .ok (.singleThread, c) := by
  have hdown : (resumeSync vars b y false).ctx.deadlock = false := by
    have hend : (restoreContext vars b.thread y.ctx b.ctx).2 = none := restoreContext_snd_eq_none.2 hr
    unfold resumeSync
    simp only [Bool.false_eq_true, if_false]
    split <;> rename_i heq <;> rw [heq] at hend
    · exact Context.deadlock_setDeadlock _ false
    · cases hend
  rw [chooseExecutor_of_findsNone hnone, hdown]
  exact ⟨_, rfl⟩

end

/-! ### A fresh loop on the worker -/

/-- A coroutine hands the function 1 to the single thread, whose worker, thread 1, runs the fresh loop 1 in it. -/
def freshLoop : List (Action Nat) := [.callSync 0 1 true .loopDefault none, .start 1 1, .driveLoop 1 2 1]

/-- The coroutine on the fresh loop awaits a function that is not thread-sensitive. -/
def insensitiveCall : List (Action Nat) := [.callSync 2 3 false .loopDefault none, .start 3 5, .endBody 3, .resumeSync 2]

/-- One coroutine, with an empty context. -/
def loneCoroutine : State Nat := .init (.task 0) 0 ∅

theorem deadlock_detected_freshLoop : ∃ s b, (machine numbers 1).run loneCoroutine freshLoop = some s ∧
    s.busy = some 1 ∧ s.bodies 2 = some b ∧ b.kind = .task 1 ∧
    chooseExecutor ⟨true, .loopDefault, s.loopExecutors 1⟩ b.thread b.ctx = .error deadlockError :=
  ⟨_, _, rfl, rfl, rfl, rfl,
    (@deadlock_detected Nat numbers 1 (.task 0) 0 ∅ _ freshLoop rfl 1 2 _ rfl rfl rfl rfl .loopDefault none).1
      ⟨rfl, rfl, rfl, rfl⟩⟩

/-- **The detector is silent after one call**: on a fresh loop, after a function that is not thread-sensitive, a
thread-sensitive call is handed to the single thread, which executes the function that drives this very loop. -/
theorem deadlock_missed : ¬ ∀ (as : List (Action Nat)) (s : State Nat) (f i : BodyId) (b : Body Nat) (l : LoopId)
    (plain : Bool), (machine numbers 1).run loneCoroutine as = some s → s.busy = some f → s.bodies i = some b →
    b.phase = .running → b.kind = .task l → b.origin = some ⟨f, plain⟩ →
    FindsNone ⟨true, .loopDefault, s.loopExecutors l⟩ b.thread b.ctx →
    chooseExecutor ⟨true, .loopDefault, s.loopExecutors l⟩ b.thread b.ctx = .error deadlockError := by
  intro h
  have hraised := h (freshLoop ++ insensitiveCall) _ 1 2 _ 1 true rfl rfl rfl rfl rfl rfl ⟨rfl, rfl, rfl, rfl⟩
  cases hraised

end Asgiref.Sync.Calls
