import Asgiref.AsyncToSync.Model
import Asgiref.CurrentThreadExecutor.Wakeup

/-!
# When `call_result` is resolved

`call_result` is resolved from inside `main_wrap` only, and a task has two ways to end without having entered the
`try` block there: it is cancelled before its first step, or `_restore_context` raises on its first line.

* `Spared` — the condition on the steps: neither happens;
* `Resolvable` — what every step that meets it keeps; `Doomed` — what one that does not leaves for ever;
* `call_result_resolved` — in every state reached in which the task is done, `call_result` is resolved if and
  only if every step has met the condition, and then the calling thread does not wait for a wake-up;
* `call_abandoned` — a run that leaves the calling thread waiting for a task that is done.
-/

namespace Asgiref.AsyncToSync

open Asgiref.Python Asgiref.Lib Asgiref.Sync

/-- `call_result` has been resolved by `main_wrap`, or will never be. -/
def TaskPc.pastResult {R : Type} : TaskPc R → Bool
  | .resolved _ | .removed _ | .stored _ | .done _ => true
  | _ => false

/-- The callbacks of `call_result` have been run. -/
def TaskPc.pastCallbacks {R : Type} : TaskPc R → Bool
  | .removed _ | .stored _ | .done _ => true
  | _ => false

/-- The task is between `task_context.append` and `task_context.remove`. -/
def TaskPc.isListed {R : Type} : TaskPc R → Bool
  | .running _ | .suspended _ | .awaited _ | .resolved _ => true
  | _ => false

@[simp] theorem TaskPc.pastResult_cancel {R : Type} (pc : TaskPc R) : pc.cancel.pastResult = pc.pastResult := by
  cases pc <;> rfl

@[simp] theorem TaskPc.pastCallbacks_cancel {R : Type} (pc : TaskPc R) :
    pc.cancel.pastCallbacks = pc.pastCallbacks := by
  cases pc <;> rfl

@[simp] theorem TaskPc.isListed_cancel {R : Type} (pc : TaskPc R) : pc.cancel.isListed = pc.isListed := by
  cases pc <;> rfl

section

variable {U R : Type} (k : Call U)

/-- The condition on the steps: a task that has not been stepped yet is not cancelled, and when it is stepped the
comparisons in `_restore_context(context[0])` do not raise. -/
def Spared (s : State U R) (a : Action U R) : Prop :=
  ∀ m, s.taskPc = .created m → a ≠ .cancelTask ∧ (a = .firstStep → ¬ Raises k.vars s.cell s.taskCtx)

/-- What every step of a spared task keeps. -/
structure Resolvable (s : State U R) : Prop where
  spared : s.taskPc ≠ .created true
  pending : s.taskPc.pastResult = false → s.callResult = .pending
  resolved : s.taskPc.pastResult = true → s.callResult.done = true
  /-- The task is in `task_context`, if there is one. -/
  listed : s.taskPc.isListed = true → ∀ l, s.taskContext = some l → k.task ∈ l
  /-- The executor of the call knows what has happened to `call_result`. -/
  told : ∃ x, s.execs.execs k.executor = some x ∧ CurrentThreadExecutor.Wakes x ∧
    (s.taskPc.pastResult = true → x.awaitedDone = true) ∧ (s.taskPc.pastCallbacks = true → x.registered = false)

/-- The task has missed the body of `main_wrap`, or is about to. -/
def Doomed (s : State U R) : Prop :=
  s.callResult = .pending ∧ (s.taskPc = .created true ∨ ∃ e, s.taskPc = .done (.error e))

end

variable {U R : Type} {k : Call U}

/-! ### Steps of a spared task -/

/-- A step that leaves `call_result` and the executors alone. -/
theorem Resolvable.frame {s s' : State U R} (h : Resolvable k s) (hresult : s'.callResult = s.callResult)
    (hexecs : s'.execs = s.execs) (hspared : s'.taskPc ≠ .created true)
    (hpast : s'.taskPc.pastResult = s.taskPc.pastResult)
    (hcalled : s'.taskPc.pastCallbacks = s.taskPc.pastCallbacks)
    (hlisted : s'.taskPc.isListed = true → ∀ l, s'.taskContext = some l → k.task ∈ l) : Resolvable k s' where
  spared := hspared
  pending := by rw [hpast, hresult]; exact h.pending
  resolved := by rw [hpast, hresult]; exact h.resolved
  listed := hlisted
  told := by rw [hexecs, hpast, hcalled]; exact h.told

/-- A step that moves the task. -/
theorem Resolvable.goto {s : State U R} (h : Resolvable k s) {pc : TaskPc R} (hspared : pc ≠ .created true)
    (hpast : pc.pastResult = s.taskPc.pastResult) (hcalled : pc.pastCallbacks = s.taskPc.pastCallbacks)
    (hlisted : pc.isListed = true → s.taskPc.isListed = true) : Resolvable k { s with taskPc := pc } :=
  h.frame rfl rfl hspared hpast hcalled fun hl => h.listed (hlisted hl)

theorem resolvable_firstStep {s : State U R} {m : Bool} (h : Resolvable k s) (hpc : s.taskPc = .created m)
    (hs : Spared k s .firstStep) : Resolvable k (firstStep k s m) := by
  have hm : m = false := by
    cases m with
    | false => rfl
    | true => exact absurd hpc h.spared
  have hnone := restoreContext_snd_eq_none (t := k.loopThread).2 ((hs m hpc).2 rfl)
  unfold firstStep
  rw [if_neg (by rw [hm]; exact Bool.false_ne_true)]
  split
  · rename_i c e hc
    rw [hc] at hnone
    cases hnone
  · refine h.frame rfl rfl nofun (by rw [hpc]; rfl) (by rw [hpc]; rfl) fun _ l hl => ?_
    obtain ⟨l', -, rfl⟩ := Option.map_eq_some_iff.1 hl
    simp

theorem resolvable_resolve {s : State U R} {r : Result R} {f : Future R} {execs : CurrentThreadExecutor.State}
    (h : Resolvable k s) (hpc : s.taskPc = .awaited r) (hf : s.callResult.settle r = .ok f)
    (hx : CurrentThreadExecutor.step s.execs (.resolve k.executor) = some execs) :
    Resolvable k { s with callResult := f, execs := execs, taskPc := .resolved (.ok ()) } := by
  have hpend : s.callResult = .pending := h.pending (by rw [hpc]; rfl)
  have hf' : f = .finished r := by
    rw [hpend, Future.settle_pending] at hf
    cases hf; rfl
  obtain ⟨x, hxe, hw, -⟩ := h.told
  obtain ⟨y, hye, hy⟩ := CurrentThreadExecutor.wakes_step hx hxe hw
  obtain ⟨z, hze, hz⟩ := CurrentThreadExecutor.awaitedDone_of_resolve hx
  cases hye.symm.trans hze
  exact ⟨nofun, nofun, fun _ => by simp only [hf', Future.done_finished],
    fun _ => h.listed (by rw [hpc]; rfl), y, hye, hy.wakes, fun _ => hz, nofun⟩

theorem resolvable_remove {s : State U R} {out : Result Unit} {x : CurrentThreadExecutor.Executor}
    (h : Resolvable k s) (hpc : s.taskPc = .resolved out) (hx : s.execs.execs k.executor = some x)
    (hreg : x.registered = false) : Resolvable k (remove k s out) := by
  have hdone : s.callResult.done = true := h.resolved (by rw [hpc]; rfl)
  obtain ⟨y, hy, hw, ha, -⟩ := h.told
  cases hx.symm.trans hy
  have ha := ha (by rw [hpc]; rfl)
  have hlist := h.listed (by rw [hpc]; rfl)
  unfold remove
  split
  · exact ⟨nofun, nofun, fun _ => hdone, nofun, x, hx, hw, fun _ => ha, fun _ => hreg⟩
  · rw [if_pos (hlist _ ‹_›)]
    exact ⟨nofun, nofun, fun _ => hdone, nofun, x, hx, hw, fun _ => ha, fun _ => hreg⟩

theorem resolvable_executor {s : State U R} {a : CurrentThreadExecutor.Action} {execs : CurrentThreadExecutor.State}
    (h : Resolvable k s) (hx : CurrentThreadExecutor.step s.execs a = some execs) :
    Resolvable k { s with execs := execs } := by
  obtain ⟨x, hxe, hw, ha, hr⟩ := h.told
  obtain ⟨y, hye, hy⟩ := CurrentThreadExecutor.wakes_step hx hxe hw
  refine ⟨h.spared, h.pending, h.resolved, h.listed, y, hye, hy.wakes, fun hp => hy.awaitedDone (ha hp), fun hc => ?_⟩
  have hp : s.taskPc.pastResult = true := by
    revert hc
    cases s.taskPc <;> simp [TaskPc.pastResult, TaskPc.pastCallbacks]
  exact hy.registered (ha hp) (hr hc)

theorem resolvable_step {s s' : State U R} {a : Action U R} (h : Resolvable k s) (hs : Spared k s a)
    (hstep : (machine k).step s a = some s') : Resolvable k s' := by
  cases stepTo_of_step k hstep with
  | createTask hpc => exact h.goto nofun (by rw [hpc]; rfl) (by rw [hpc]; rfl) nofun
  | cancelTask =>
    refine h.goto (fun hc => ?_) (by simp) (by simp) (by simp)
    cases hpc : s.taskPc with
    | created m => exact (hs m hpc).1 rfl
    | _ => rw [hpc] at hc; cases hc
  | firstStep hpc => exact resolvable_firstStep h hpc hs
  | write => exact h.frame rfl rfl h.spared rfl rfl h.listed
  | writeRaises => exact h
  | suspend hpc | resume hpc | finish hpc =>
    exact h.goto nofun (by rw [hpc]; rfl) (by rw [hpc]; rfl) fun _ => by rw [hpc]; rfl
  | resolve hpc hf hx => exact resolvable_resolve h hpc hf hx
  | resolveRaises hpc hf =>
    rw [h.pending (by rw [hpc]; rfl), Future.settle_pending] at hf
    cases hf
  | remove hpc hx hreg => exact resolvable_remove h hpc hx hreg
  | store hpc => exact h.frame rfl rfl nofun (by rw [hpc]; rfl) (by rw [hpc]; rfl) nofun
  | endTask hpc => exact h.goto nofun (by rw [hpc]; rfl) (by rw [hpc]; rfl) nofun
  | appendOther =>
    refine h.frame rfl rfl h.spared rfl rfl fun hl l hs => ?_
    obtain ⟨l', hl', rfl⟩ := Option.map_eq_some_iff.1 hs
    exact List.mem_append_left _ (h.listed hl l' hl')
  | removeOther hne =>
    refine h.frame rfl rfl h.spared rfl rfl fun hl l hs => ?_
    obtain ⟨l', hl', rfl⟩ := Option.map_eq_some_iff.1 hs
    exact (List.mem_erase_of_ne hne.symm).2 (h.listed hl l' hl')
  | executor _ hx => exact resolvable_executor h hx
  | leave => exact h.frame rfl rfl h.spared rfl rfl h.listed
  | restore =>
    unfold restore
    split <;> exact h.frame rfl rfl h.spared rfl rfl h.listed
  | ret => exact h.frame rfl rfl h.spared rfl rfl h.listed

theorem resolvable_start {c : Context U} {l : Option (List TaskId)} {execs : CurrentThreadExecutor.State}
    {s : State U R} (h : start k c l execs = some s) : Resolvable k s := by
  obtain ⟨execs', hx, rfl⟩ := Option.map_eq_some_iff.1 h
  obtain ⟨x, hxe, hw⟩ := CurrentThreadExecutor.wakes_of_create hx
  exact ⟨nofun, fun _ => rfl, nofun, nofun, x, hxe, hw, nofun, nofun⟩

/-! ### Steps of a task that was not spared -/

/-- A step that breaks the condition dooms the call. -/
theorem doomed_of_not_spared {s s' : State U R} {a : Action U R} (h : Resolvable k s) (hs : ¬ Spared k s a)
    (hstep : (machine k).step s a = some s') : Doomed s' := by
  unfold Spared at hs
  push Not at hs
  obtain ⟨m, hpc, hs⟩ := hs
  have hpend := h.pending (by rw [hpc]; rfl)
  cases stepTo_of_step k hstep with
  | cancelTask =>
    refine ⟨hpend, Or.inl ?_⟩
    simp only [hpc]
    rfl
  | firstStep hpc' =>
    cases hpc.symm.trans hpc'
    have hraise : (restoreContext k.vars k.loopThread s.cell s.taskCtx).2 ≠ none :=
      fun hnone => restoreContext_snd_eq_none.1 hnone (hs nofun).2
    unfold firstStep
    split
    · exact ⟨hpend, Or.inr ⟨_, rfl⟩⟩
    · split
      · exact ⟨hpend, Or.inr ⟨_, rfl⟩⟩
      · rename_i c hc
        rw [hc] at hraise
        exact absurd rfl hraise
  | _ => exact absurd (hs nofun).1 nofun

theorem doomed_step {s s' : State U R} {a : Action U R} (h : Doomed s) (hstep : (machine k).step s a = some s') :
    Doomed s' := by
  obtain ⟨hpend, hpc⟩ := h
  have hne : ∀ pc : TaskPc R, s.taskPc = pc → (pc = .created true ∨ ∃ e, pc = .done (.error e)) := by
    rintro pc rfl
    exact hpc
  cases stepTo_of_step k hstep with
  | cancelTask =>
    refine ⟨hpend, ?_⟩
    rcases hpc with hpc | ⟨e, hpc⟩
    · exact Or.inl (by simp only [hpc]; rfl)
    · exact Or.inr ⟨e, by simp only [hpc]; rfl⟩
  | firstStep hm =>
    rcases hne _ hm with hm | ⟨e, hm⟩ <;> cases hm
    exact ⟨hpend, Or.inr ⟨_, rfl⟩⟩
  | createTask hm | write hm | suspend hm | resume hm | finish hm | resolve hm | resolveRaises hm | remove hm | store hm
  | endTask hm =>
    -- the task is not where these steps start
    rcases hne _ hm with hm | ⟨e, hm⟩ <;> cases hm
  | writeRaises | appendOther | removeOther | executor | leave | ret => exact ⟨hpend, hpc⟩
  | restore =>
    unfold restore
    split <;> exact ⟨hpend, hpc⟩

/-! ### Runs -/

/-- **`call_result` is resolved when the task is done, exactly if the task was spared**: not cancelled before its
first step, and with a context whose values can be compared.  Then the calling thread does not wait for a wake-up
that will not come. -/
theorem call_result_resolved {c : Context U} {l : Option (List TaskId)} {execs : CurrentThreadExecutor.State}
    {s₀ s : State U R} {as : List (Action U R)} (hstart : start k c l execs = some s₀)
    (hrun : (machine k).run s₀ as = some s) (hdone : ∃ out, s.taskPc = .done out) :
    (s.callResult.done = true ↔ (machine k).Meets (Spared k) s₀ as) ∧
    (s.callResult.done = true → ∀ x, s.execs.execs k.executor = some x → x.pc ≠ .waiting false) := by
  have hres := resolvable_start hstart
  have hmeets : (machine k).Meets (Spared k) s₀ as → Resolvable k s := fun hm =>
    (machine k).run_invariant_of_meets (fun _ _ _ h hs => resolvable_step h hs) hres hm hrun
  have hdoomed : ¬ (machine k).Meets (Spared k) s₀ as → s.callResult.done ≠ true := by
    intro hnot
    obtain ⟨as₁, a, as₂, t, t', -, hrun₁, hm, ha, hstep, hrun₂⟩ := (machine k).exists_breaking hrun hnot
    have ht : Resolvable k t :=
      (machine k).run_invariant_of_meets (fun _ _ _ h hs => resolvable_step h hs) hres hm hrun₁
    have hlast : Doomed s :=
      (machine k).run_invariant (fun _ _ _ h => doomed_step h) (doomed_of_not_spared ht ha hstep) hrun₂
    rw [hlast.1]
    exact Bool.false_ne_true
  obtain ⟨out, hout⟩ := hdone
  refine ⟨⟨fun hd => by_contra fun hnot => hdoomed hnot hd, fun hm => (hmeets hm).resolved (by rw [hout]; rfl)⟩,
    fun hd x hx => ?_⟩
  obtain ⟨y, hy, hw, -, hr⟩ := (hmeets (by_contra fun hnot => hdoomed hnot hd)).told
  cases hx.symm.trans hy
  exact hw.not_waiting (hr (by rw [hout]; rfl))

/-! ### A task that is cancelled before its first step -/

/-- A call made by thread 1 on a loop that runs on thread 2. -/
def plainCall : Call Nat :=
  { caller := 1, loopThread := 2, task := 0, executor := 0, vars := numbers }

/-- The coroutine returns 5, while the caller waits. -/
def waitAndReturn : List (Action Nat Nat) :=
  [.executor (.enter 0 1), .executor (.loop 0), .createTask, .firstStep, .finish (.ok 5), .resolve,
    .executor (.done 0), .remove, .store, .endTask]

/-- The task is cancelled between its creation and its first step, as a loop does that is shut down. -/
def waitAndCancel : List (Action Nat Nat) :=
  [.executor (.enter 0 1), .executor (.loop 0), .createTask, .cancelTask, .firstStep]

theorem call_result_resolved_plain : ∃ s₀ s, start plainCall ∅ (some []) .init = some s₀ ∧
    (machine plainCall).run s₀ waitAndReturn = some s ∧
    (s.callResult.done = true ↔ (machine plainCall).Meets (Spared plainCall) s₀ waitAndReturn) :=
  ⟨_, _, rfl, rfl, (@call_result_resolved _ _ plainCall ∅ (some []) .init _ _ waitAndReturn rfl rfl ⟨_, rfl⟩).1⟩

/-- **A call is abandoned**: its task is done, and its thread waits in `run_until_future` for a `call_result` that
nobody will resolve. -/
theorem call_abandoned : ¬ ∀ (s₀ s : State Nat Nat) (as : List (Action Nat Nat)),
    start plainCall ∅ (some []) .init = some s₀ → (machine plainCall).run s₀ as = some s →
    (∃ out, s.taskPc = .done out) → s.callResult.done = true := by
  intro h
  have hdone := h _ _ waitAndCancel rfl rfl ⟨_, rfl⟩
  exact absurd hdone Bool.false_ne_true

end Asgiref.AsyncToSync
