import Asgiref.AsyncToSync.Model

/-!
# What `AsyncToSync` hands back to the caller's context

`main_wrap` resolves `call_result` before it stores the task's context in `context[0]`, and the resolution is
what lets the calling thread go on: `_restore_context(context[0])` may read the cell before it is written.

* `InForce` — the caller reads what the coroutine has bound;
* `HandsBack` — the condition on the step `restore`: the cell has been written, and the comparisons made there
  neither raise nor take what the caller has, or a default, for the value the coroutine has bound;
* `updates_in_force` — in every run whose steps meet it, a call that has ended has every update in force;
* `updates_lost` — a run in which the calling thread is faster, and loses the update.
-/

namespace Asgiref.AsyncToSync

open Asgiref.Python Asgiref.Lib Asgiref.Sync

section

variable {U R : Type} (k : Call U)

/-- Every binding the coroutine has made is in force in the context of the caller: its variables have their
values, and its `Local`s read the same. -/
def InForce (s : State U R) : Prop :=
  (∀ n, Var.user n ∈ s.wrote → s.callerCtx.lookup (.user n) = s.taskCtx.lookup (.user n)) ∧
  ∀ n, Var.data (.user n) ∈ s.wrote → ∀ key,
    s.callerCtx.getattr k.caller (.user n) key = s.taskCtx.getattr k.loopThread (.user n) key

/-- The condition on the steps: where the caller's context is restored, `main_wrap` has stored the task's, no
comparison raises, and where `cvar.get()` equals the value of a variable the coroutine has bound, the caller has bound
it to that very value. -/
def HandsBack (s : State U R) (a : Action U R) : Prop :=
  a = .restore → s.cellStored = true ∧ ¬ Raises k.vars s.cell s.callerCtx ∧
    ∀ n v w, Var.user n ∈ s.wrote → s.cell.lookup (.user n) = some v →
      cvarGet k.vars (.user n) (s.callerCtx.lookup (.user n)) = some w → k.vars.ne w v = .ok false →
        s.callerCtx.lookup (.user n) = some v

/-- What the task and the cell know about the bindings made. -/
structure Bindings (s : State U R) : Prop where
  user : ∀ n, Var.user n ∈ s.wrote → ∃ v, s.taskCtx.lookup (.user n) = some v
  data : ∀ l, Var.data l ∈ s.wrote → l ≠ .executors ∧
    ∃ st, s.taskCtx.data l = some st ∧ st.threadId = k.loopThread
  /-- A task that has not been stepped has bound nothing. -/
  fresh : s.taskPc.stepped = false → s.wrote = []
  /-- The cell, once written, has the context of the task, and the coroutine writes no more. -/
  cell : s.cellStored = true → s.cell = s.taskCtx ∧ s.taskPc.left = true
  /-- The caller's context, once restored, has every update. -/
  handed : s.callerPc = .restored ∨ (∃ r, s.callerPc = .ended r) → s.cellStored = true ∧ InForce k s

end

variable {U R : Type} {k : Call U}

/-! ### Steps -/

theorem getattr_eq_of_data {c c' : Context U} {t t' : ThreadId} {l : LocalId} {st : Storage (l.Attr U)}
    (h : c.data l = some (rehome t st)) (h' : c'.data l = some st) (ht : st.threadId = t') (key : String) :
    c.getattr t l key = c'.getattr t' l key := by
  unfold Context.getattr
  rw [Context.storage_of_data h (threadId_rehome t st), Context.storage_of_data h' ht, data_rehome]

/-- **The restoring step**, where the cell has the context of the task. -/
theorem inForce_restore {s : State U R} (h : Bindings k s) (hs : HandsBack k s .restore) :
    InForce k (restore k s) := by
  obtain ⟨hstored, hraise, hne⟩ := hs rfl
  have hcell := (h.cell hstored).1
  have hnone := restoreContext_snd_eq_none (t := k.caller).2 hraise
  unfold restore
  split
  · rename_i c hc
    have hfst : (restoreContext k.vars k.caller s.cell s.callerCtx).1 = c := by rw [hc]
    refine ⟨fun n hn => ?_, fun n hn key => ?_⟩
    · obtain ⟨v, hv⟩ := h.user n hn
      have hv' : s.cell.lookup (.user n) = some v := by rw [hcell]; exact hv
      have hc' : c.lookup (.user n) = some v := by
        rw [← hfst]
        rcases lookup_restoreContext (t := k.caller) hraise hv' with hl | ⟨w, hw, hle, hl⟩
        · exact hl
        · rw [hl, hne n v w hn hv' hw hle]
      simp only
      rw [hv, ← hc']
      exact Context.lookup_setData_ne c _ nofun
    · obtain ⟨-, st, hst, ht⟩ := h.data _ hn
      have hst' : s.cell.data (.user n) = some st := by rw [hcell]; exact hst
      have hc' : c.data (.user n) = some (rehome k.caller st) := by
        rw [← hfst]
        exact data_restoreContext hraise hst'
      refine getattr_eq_of_data ?_ hst ht key
      rw [← hc']
      exact Context.data_setData_ne c _ nofun
  · rename_i c e hc
    rw [hc] at hnone
    cases hnone

theorem bindings_restore {s : State U R} (h : Bindings k s) (hs : HandsBack k s .restore) :
    Bindings k (restore k s) := by
  have hin := inForce_restore h hs
  have hstored := (hs rfl).1
  unfold restore at hin ⊢
  split at hin
  · exact ⟨h.user, h.data, h.fresh, h.cell, fun _ => ⟨hstored, hin⟩⟩
  · exact ⟨h.user, h.data, h.fresh, h.cell, fun _ => ⟨hstored, hin⟩⟩

theorem Bindings.not_stored {s : State U R} (h : Bindings k s) (hpc : s.taskPc.left = false) :
    s.cellStored ≠ true := by
  intro hc
  rw [(h.cell hc).2] at hpc
  cases hpc

/-- A step that changes no context and no history. -/
theorem Bindings.frame {s s' : State U R} (h : Bindings k s) (hcaller : s'.callerCtx = s.callerCtx)
    (htask : s'.taskCtx = s.taskCtx) (hcell : s'.cell = s.cell) (hwrote : s'.wrote = s.wrote)
    (hstored : s'.cellStored = s.cellStored)
    (hfresh : s'.taskPc.stepped = false → s.taskPc.stepped = false)
    (hdone : s.taskPc.left = true → s'.taskPc.left = true)
    (hpc : s'.callerPc = .restored ∨ (∃ r, s'.callerPc = .ended r) →
      s.callerPc = .restored ∨ ∃ r, s.callerPc = .ended r) : Bindings k s' where
  user := by rw [hwrote, htask]; exact h.user
  data := by rw [hwrote, htask]; exact h.data
  fresh hf := by rw [hwrote]; exact h.fresh (hfresh hf)
  cell hc := by
    rw [hstored] at hc
    rw [hcell, htask]
    exact ⟨(h.cell hc).1, hdone (h.cell hc).2⟩
  handed hp := by
    unfold InForce
    rw [hstored, hwrote, hcaller, htask]
    exact h.handed (hpc hp)

theorem bindings_write {s : State U R} {w : Write U} {m : Bool} {c : Context U} (h : Bindings k s)
    (hpc : s.taskPc = .running m) (hw : w.apply k.loopThread s.taskCtx = .ok c) :
    Bindings k { s with taskCtx := c, wrote := w.var :: s.wrote } := by
  have hnot : s.cellStored ≠ true := h.not_stored (by rw [hpc]; rfl)
  -- a write binds its own variable, and leaves the others alone
  have hother : ∀ x, x ≠ w.var → c.lookup x = s.taskCtx.lookup x := by
    intro x hx
    cases w with
    | set y v => cases hw; exact AList.lookup_insert_ne hx
    | setattr n key v => cases hw; exact Context.lookup_setData_ne _ _ hx
    | delattr n key =>
      simp only [Write.apply, Context.delattr] at hw
      split at hw <;> cases hw
      exact Context.lookup_setData_ne _ _ hx
  refine ⟨fun n hn => ?_, fun l hl => ?_, fun hf => ?_, fun hc => absurd hc hnot, fun hp => absurd (h.handed hp).1 hnot⟩
  · by_cases hx : Var.user n = w.var
    · cases w with
      | set y v => cases hw; cases hx; exact ⟨v, AList.lookup_insert _⟩
      | setattr n key v => cases hx
      | delattr n key => cases hx
    · rw [hother _ hx]
      exact h.user n ((List.mem_cons.1 hn).resolve_left hx)
  · by_cases hx : Var.data l = w.var
    · cases w with
      | set y v => cases hx
      | setattr n key v =>
        cases hw; cases hx
        exact ⟨nofun, _, Context.data_setData _ _ _, rfl⟩
      | delattr n key =>
        cases hx
        simp only [Write.apply, Context.delattr] at hw
        split at hw <;> cases hw
        exact ⟨nofun, _, Context.data_setData _ _ _, rfl⟩
    · obtain ⟨hne, st, hst, ht⟩ := h.data l ((List.mem_cons.1 hl).resolve_left hx)
      exact ⟨hne, st, (hother _ hx).trans hst, ht⟩
  · rw [hpc] at hf; cases hf

theorem bindings_firstStep {s : State U R} {m : Bool} (h : Bindings k s) (hpc : s.taskPc = .created m) :
    Bindings k (firstStep k s m) := by
  have hwrote : s.wrote = [] := h.fresh (by rw [hpc]; rfl)
  have hnot : s.cellStored ≠ true := h.not_stored (by rw [hpc]; rfl)
  have hcaller : ∀ s' : State U R, s'.wrote = s.wrote → s'.cellStored = s.cellStored →
      s'.callerPc = s.callerPc → Bindings k s' := by
    intro s' hw hs hp
    rw [hwrote] at hw
    refine ⟨?_, ?_, fun _ => hw, ?_, ?_⟩
    · rw [hw]; exact nofun
    · rw [hw]; exact nofun
    · rw [hs]; exact fun hc => absurd hc hnot
    · rw [hp, hs]; exact fun hp => absurd (h.handed hp).1 hnot
  unfold firstStep
  split
  · exact hcaller _ rfl rfl rfl
  · split <;> exact hcaller _ rfl rfl rfl

theorem bindings_step {s s' : State U R} {a : Action U R} (h : Bindings k s) (hs : HandsBack k s a)
    (hstep : (machine k).step s a = some s') : Bindings k s' := by
  cases stepTo_of_step k hstep with
  | createTask hpc => exact h.frame rfl rfl rfl rfl rfl (fun _ => by rw [hpc]; rfl) (by rw [hpc]; exact nofun) id
  | cancelTask => exact h.frame rfl rfl rfl rfl rfl (by simp) (by simp) id
  | firstStep hpc => exact bindings_firstStep h hpc
  | write hpc hw => exact bindings_write h hpc hw
  | writeRaises => exact h
  | suspend hpc | resume hpc | finish hpc | resolve hpc | resolveRaises hpc =>
    exact h.frame rfl rfl rfl rfl rfl nofun (by rw [hpc]; exact nofun) id
  | remove hpc =>
    have hleft : s.taskPc.left = false := by rw [hpc]; rfl
    unfold remove
    split
    · exact h.frame rfl rfl rfl rfl rfl nofun (by simp [hleft]) id
    · split <;> exact h.frame rfl rfl rfl rfl rfl nofun (by simp [hleft]) id
  | store hpc =>
    have hnot : s.cellStored ≠ true := h.not_stored (by rw [hpc]; rfl)
    exact ⟨h.user, h.data, nofun, fun _ => ⟨rfl, rfl⟩, fun hp => absurd (h.handed hp).1 hnot⟩
  | endTask => exact h.frame rfl rfl rfl rfl rfl nofun (fun _ => rfl) id
  | appendOther | removeOther | executor => exact h.frame rfl rfl rfl rfl rfl id id id
  | leave => exact h.frame rfl rfl rfl rfl rfl id id (by simp)
  | restore => exact bindings_restore h hs
  | ret hpc => exact h.frame rfl rfl rfl rfl rfl id id fun _ => Or.inl hpc

theorem bindings_start {c : Context U} {l : Option (List TaskId)} {execs : CurrentThreadExecutor.State}
    {s : State U R} (h : start k c l execs = some s) : Bindings k s := by
  obtain ⟨_, _, rfl⟩ := Option.map_eq_some_iff.1 h
  exact ⟨nofun, nofun, fun _ => rfl, nofun, by simp⟩

/-- **No update is lost.**  In every run of a call whose `restore` step meets `HandsBack`, every binding the
coroutine has made is in force in the caller's context when the call has returned or raised. -/
theorem updates_in_force {c : Context U} {l : Option (List TaskId)} {execs : CurrentThreadExecutor.State}
    {s₀ s : State U R} {as : List (Action U R)} (hstart : start k c l execs = some s₀)
    (hmeets : (machine k).Meets (HandsBack k) s₀ as) (hrun : (machine k).run s₀ as = some s)
    (hended : ∃ r, s.callerPc = .ended r) : InForce k s :=
  (((machine k).run_invariant_of_meets (fun _ _ _ h hs => bindings_step h hs) (bindings_start hstart) hmeets
    hrun).handed (Or.inr hended)).2

/-! ### Two schedules of one call -/

/-- A call made by thread 1 on a loop that runs on thread 2; the values of the user are numbers. -/
def sampleCall : Call Nat :=
  { caller := 1, loopThread := 2, task := 0, executor := 0, vars := numbers }

/-- The coroutine binds variable 0 to 1 and returns 5, while the caller waits. -/
def setAndReturn : List (Action Nat Nat) :=
  [.executor (.enter 0 1), .executor (.loop 0), .createTask, .firstStep, .write (.set 0 1), .finish (.ok 5), .resolve,
    .executor (.done 0)]

/-- The rest of `main_wrap` on the loop thread. -/
def finishMainWrap : List (Action Nat Nat) := [.remove, .store, .endTask]

/-- The rest of `__call__` on the calling thread. -/
def finishCall : List (Action Nat Nat) := [.executor (.loop 0), .leave, .restore, .ret]

/-- The comparison of numbers neither raises nor takes two for the same. -/
theorem handsBack_sample {s : State Nat Nat} (h : s.cellStored = true) (a : Action Nat Nat) :
    HandsBack sampleCall s a := by
  refine fun _ => ⟨h, ?_, fun n v w _ _ hget hne => ?_⟩
  · rintro ⟨x, v, w, e, -, -, hne, -⟩
    cases hne
  · have hw : s.callerCtx.lookup (.user n) = some w := by simpa [cvarGet, sampleCall, numbers] using hget
    rw [hw]
    simpa [sampleCall, numbers] using hne

theorem updates_in_force_sample : ∃ s₀ s, start sampleCall ∅ (some []) .init = some s₀ ∧
    (machine sampleCall).run s₀ (setAndReturn ++ finishMainWrap ++ finishCall) = some s ∧
    InForce sampleCall s := by
  refine ⟨_, _, rfl, rfl, @updates_in_force _ _ sampleCall ∅ (some []) .init _ _
    (setAndReturn ++ finishMainWrap ++ finishCall) rfl ((Machine.meets_append _ rfl).2 ?_) rfl ⟨_, rfl⟩⟩
  refine ⟨Machine.meets_of_forall _ (fun a ha s hr => ?_) _, ?_⟩
  · subst hr
    simp [setAndReturn, finishMainWrap] at ha
  · refine ⟨nofun, fun _ h => ?_⟩
    cases h
    refine ⟨nofun, fun _ h => ?_⟩
    cases h
    refine ⟨handsBack_sample rfl _, fun _ h => ?_⟩
    cases h
    exact ⟨nofun, fun _ _ => trivial⟩

/-- **An update is lost** when the calling thread, woken by `call_result`, reads `context[0]` before `main_wrap`
has stored the context there. -/
theorem updates_lost : ¬ ∀ (s₀ s : State Nat Nat) (as : List (Action Nat Nat)),
    start sampleCall ∅ (some []) .init = some s₀ → (machine sampleCall).run s₀ as = some s →
    (∃ r, s.callerPc = .ended r) → InForce sampleCall s := by
  intro h
  have hlost := (h _ _ (setAndReturn ++ finishCall ++ finishMainWrap) rfl rfl ⟨_, rfl⟩).1 0 (by decide)
  exact absurd hlost nofun

end Asgiref.AsyncToSync
