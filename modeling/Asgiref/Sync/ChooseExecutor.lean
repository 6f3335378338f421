import Asgiref.Sync.RestoreContext

/-!
# The wrapper's own entries in a context

`AsyncToSync.executors.current`, `SyncToAsync.deadlock_context`, and the choice of an executor by
`SyncToAsync.__call__`.

* `chooseExecutor` — the executor, with the context that the choice leaves;
* `chooseExecutor_eq_error` — when the deadlock detector speaks.
-/

namespace Asgiref

open Asgiref.Python

namespace Context

variable {U : Type}

/-- `getattr(AsyncToSync.executors, "current", None)` on the thread `tid`. -/
def currentExecutor (c : Context U) (tid : ThreadId) : Option Nat :=
  match c.getattr tid .executors "current" with
  | .ok e => e
  | .error _ => none

/-- `AsyncToSync.executors.current = e` on the thread `tid`. -/
def setCurrentExecutor (c : Context U) (tid : ThreadId) (e : Option Nat) : Context U :=
  c.setattr tid .executors "current" e

/-- `SyncToAsync.deadlock_context.get(False)` -/
def deadlock (c : Context U) : Bool :=
  match c.lookup .deadlockContext with
  | some b => b
  | none => false

/-- `SyncToAsync.deadlock_context.set(b)` -/
def setDeadlock (c : Context U) (b : Bool) : Context U := AList.insert .deadlockContext b c

/-- `SyncToAsync.thread_sensitive_context.get(None)` -/
def sensitiveContext (c : Context U) : Option Nat := c.lookup .threadSensitiveContext

@[simp] theorem deadlock_setDeadlock (c : Context U) (b : Bool) : (c.setDeadlock b).deadlock = b := by
  unfold deadlock setDeadlock
  rw [AList.lookup_insert]

theorem lookup_setDeadlock_ne (c : Context U) (b : Bool) {x : Var} (h : x ≠ .deadlockContext) :
    (c.setDeadlock b).lookup x = c.lookup x := AList.lookup_insert_ne h

theorem lookup_setattr_ne (c : Context U) (tid : ThreadId) {l : LocalId} (key : String) (v : l.Attr U) {x : Var}
    (h : x ≠ .data l) : (c.setattr tid l key v).lookup x = c.lookup x := lookup_setData_ne c _ h

theorem data_setCurrentExecutor (c : Context U) (tid : ThreadId) (e : Option Nat) :
    ∃ st, (c.setCurrentExecutor tid e).data .executors = some st ∧ st.threadId = tid ∧ st.data "current" = some e :=
  ⟨_, data_setData .., rfl, by simp only [Function.update_self]⟩

theorem currentExecutor_of_data {c : Context U} {tid : ThreadId} {st : Storage (Option Nat)} {e : Option Nat}
    (h : c.data .executors = some st) (ht : st.threadId = tid) (he : st.data "current" = some e) :
    c.currentExecutor tid = e := by
  have hv : c.getattr tid .executors "current" = .ok e := visible_iff.2 ⟨st, h, ht, he⟩
  unfold currentExecutor
  rw [hv]

theorem currentExecutor_eq_some {c : Context U} {tid : ThreadId} {e : Nat} :
    c.currentExecutor tid = some e ↔
      ∃ st, c.data .executors = some st ∧ st.threadId = tid ∧ st.data "current" = some (some e) := by
  rw [← visible_iff]
  unfold currentExecutor Visible
  cases c.getattr tid .executors "current" with
  | ok e' => simp
  | error _ => simp

@[simp] theorem currentExecutor_setCurrentExecutor (c : Context U) (tid : ThreadId) (e : Option Nat) :
    (c.setCurrentExecutor tid e).currentExecutor tid = e := by
  obtain ⟨st, hst, ht, he⟩ := data_setCurrentExecutor c tid e
  exact currentExecutor_of_data hst ht he

/-- What is visible depends on the storage of the `Local` only. -/
theorem currentExecutor_congr {c c' : Context U} (tid : ThreadId) (h : c'.data .executors = c.data .executors) :
    c'.currentExecutor tid = c.currentExecutor tid := by
  simp only [currentExecutor, getattr, storage, h]

theorem deadlock_congr {c c' : Context U} (h : c'.lookup .deadlockContext = c.lookup .deadlockContext) :
    c'.deadlock = c.deadlock := by
  simp only [deadlock, h]

@[simp] theorem deadlock_setCurrentExecutor (c : Context U) (tid : ThreadId) (e : Option Nat) :
    (c.setCurrentExecutor tid e).deadlock = c.deadlock := deadlock_congr (lookup_setattr_ne c tid _ _ (by simp))

@[simp] theorem currentExecutor_setDeadlock (c : Context U) (tid : ThreadId) (b : Bool) :
    (c.setDeadlock b).currentExecutor tid = c.currentExecutor tid :=
  currentExecutor_congr tid (lookup_setDeadlock_ne c b (by simp))

end Context

namespace Sync

variable {U : Type}

/-- What `SyncToAsync` can hand a function to. -/
inductive Executor where
  /-- A `CurrentThreadExecutor`. -/
  | currentThread (e : Nat)
  /-- The pool of a `ThreadSensitiveContext`, with one worker. -/
  | ofContext (m : Nat)
  /-- `SyncToAsync.single_thread_executor` -/
  | singleThread
  /-- The default executor of the loop. -/
  | loopDefault
  /-- Another executor of the user. -/
  | pool (n : Nat)
  deriving DecidableEq

def deadlockError : Exn := .runtimeError "Single thread executor already being used, would deadlock"

/-- What a call of `SyncToAsync` goes by: `_thread_sensitive`, `_executor`, and the entry of the running loop in
`loop_thread_executors`. -/
structure Choice where
  threadSensitive : Bool
  given : Executor
  loopExecutor : Option Nat
  deriving DecidableEq

/-- "Work out what thread to run the code in": the executor and the context of the caller, whose thread is `tid`. -/
def chooseExecutor (k : Choice) (tid : ThreadId) (c : Context U) : Result (Executor × Context U) :=
  if k.threadSensitive then
    match c.currentExecutor tid with
    | some e => .ok (.currentThread e, c)
    | none =>
      match c.sensitiveContext with
      | some m => .ok (.ofContext m, c)
      | none =>
        match k.loopExecutor with
        | some e => .ok (.currentThread e, c)
        | none => if c.deadlock then .error deadlockError else .ok (.singleThread, c.setDeadlock true)
  else .ok (k.given, c)

/-- The call finds no `CurrentThreadExecutor`, no `ThreadSensitiveContext` and no executor of the loop. -/
def FindsNone (k : Choice) (tid : ThreadId) (c : Context U) : Prop :=
  k.threadSensitive = true ∧ c.currentExecutor tid = none ∧ c.sensitiveContext = none ∧ k.loopExecutor = none

theorem chooseExecutor_of_findsNone {k : Choice} {tid : ThreadId} {c : Context U} (h : FindsNone k tid c) :
    chooseExecutor k tid c =
      if c.deadlock then .error deadlockError else .ok (.singleThread, c.setDeadlock true) := by
  obtain ⟨hs, hc, hm, hl⟩ := h
  simp only [chooseExecutor, hs, hc, hm, hl, if_true]

/-- **When the deadlock detector speaks.** -/
theorem chooseExecutor_eq_error {k : Choice} {tid : ThreadId} {c : Context U} {e : Exn} :
    chooseExecutor k tid c = .error e ↔ FindsNone k tid c ∧ c.deadlock = true ∧ e = deadlockError := by
  unfold chooseExecutor FindsNone
  cases k.threadSensitive <;> cases c.currentExecutor tid <;> cases c.sensitiveContext <;>
    cases k.loopExecutor <;> cases c.deadlock <;> simp [eq_comm]

/-- The choice changes nothing in the context but the flag, which it raises for the single thread. -/
theorem chooseExecutor_eq_ok {k : Choice} {tid : ThreadId} {c c' : Context U} {x : Executor}
    (h : chooseExecutor k tid c = .ok (x, c')) :
    c' = c ∧ ¬ FindsNone k tid c ∧ (k.threadSensitive = true → x ≠ .singleThread) ∨
      FindsNone k tid c ∧ c.deadlock = false ∧ x = .singleThread ∧ c' = c.setDeadlock true := by
  by_cases hf : FindsNone k tid c
  · rw [chooseExecutor_of_findsNone hf] at h
    split at h
    · cases h
    · cases h
      exact Or.inr ⟨hf, by simpa using ‹¬ c.deadlock = true›, rfl, rfl⟩
  · have hkeep : c' = c ∧ (k.threadSensitive = true → x ≠ .singleThread) := by
      unfold chooseExecutor at h
      unfold FindsNone at hf
      split at h
      · split at h
        · cases h; exact ⟨rfl, fun _ => nofun⟩
        · split at h
          · cases h; exact ⟨rfl, fun _ => nofun⟩
          · split at h
            · cases h; exact ⟨rfl, fun _ => nofun⟩
            · exact absurd ⟨‹_›, ‹_›, ‹_›, ‹_›⟩ hf
      · next hs =>
        cases h
        exact ⟨rfl, fun hs' => absurd hs' hs⟩
    exact Or.inl ⟨hkeep.1, hf, hkeep.2⟩

/-! ### The entries in a context that is moved -/

section

variable {vars : UserVars U} {t : ThreadId} {context cur : Context U}

theorem lookup_deadlock_of_deadlock {c : Context U} (h : c.deadlock = true) :
    c.lookup .deadlockContext = some (show Bool from true) := by
  unfold Context.deadlock at h
  split at h
  · next b hb => rw [hb, h]
  · cases h

theorem deadlock_of_lookup {c : Context U} {b : Bool} (h : c.lookup .deadlockContext = some b) : c.deadlock = b := by
  unfold Context.deadlock
  rw [h]

/-- A flag that is up on both sides stays up, with an exception or without. -/
theorem deadlock_restoreContext (h : context.deadlock = true) (h' : cur.deadlock = true) :
    (restoreContext vars t context cur).1.deadlock = true := by
  have hmem := AList.mem_lookup_iff.1 (lookup_deadlock_of_deadlock h)
  rcases Lib.lookup_copyLoop_cases (f := restoreVar vars t) (m := cur) context.nodupKeys hmem with hl | ⟨c, hf, hl⟩
  · exact (Context.deadlock_congr hl).trans h'
  · rw [restoreVar_eq_some hf] at hl
    exact deadlock_of_lookup hl

/-- The storage behind `AsyncToSync.executors` is left alone or moved, with an exception or without. -/
theorem executors_restoreContext {st : Storage (Option Nat)} (h : context.data .executors = some st) :
    (restoreContext vars t context cur).1.data .executors = cur.data .executors ∨
      (restoreContext vars t context cur).1.data .executors = some (rehome t st) := by
  have hmem := AList.mem_lookup_iff.1 (show context.lookup (.data .executors) = some st from h)
  rcases Lib.lookup_copyLoop_cases (f := restoreVar vars t) (m := cur) context.nodupKeys hmem with hl | ⟨c, hf, hl⟩
  · exact Or.inl hl
  · rw [restoreVar_eq_some hf] at hl
    exact Or.inr hl

/-- A flag that is up moves with its context. -/
theorem deadlock_restoreContext_of_none (hr : ¬ Raises vars context cur) (h : context.deadlock = true) :
    (restoreContext vars t context cur).1.deadlock = true :=
  deadlock_of_lookup (lookup_restoreContext_of_ne (by simp) hr (lookup_deadlock_of_deadlock h))

end

end Sync

end Asgiref
