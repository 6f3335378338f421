import Asgiref.Lib.Machine
import Asgiref.Sync.ChooseExecutor

/-!
# The pool of a `ThreadSensitiveContext`

`SyncToAsync.__call__` looks the context object up in `context_to_thread_executor` and makes a pool with one
worker where it finds none; `__aexit__` takes the entry out of the table and shuts the pool down in a helper
thread.

* `step`, `machine`: the calls, on any number of loops and threads, each line that touches the table on its own;
  the workers; cancellations; `__aenter__`, `__aexit__` and the shutdown;
* `Inv`: what all steps keep; `OnePool`: a context object has one pool at most;
* `FirstPool`: the condition on the steps, that no second pool is made for a context object;
* `one_worker`: in the runs that meet it, all functions dispatched through one context object are executed by one
  worker, one at a time.

A pool with `max_workers=1` has one worker thread, so the worker is known by the pool.
-/

namespace Asgiref.Sync.SensitiveContext

open Asgiref.Python Asgiref.Lib

abbrev ContextId := Nat
abbrev PoolId := Nat
abbrev CallId := Nat

/-- `ThreadPoolExecutor(max_workers=1)`, made for the context object `owner`. -/
structure Pool where
  owner : ContextId
  queue : List CallId := []
  /-- the function the worker executes -/
  current : Option CallId := none
  /-- the helper thread of `__aexit__` has it -/
  joining : Bool := false
  isShutdown : Bool := false

/-- Where a call of `SyncToAsync` is, in the branch of the context object. -/
inductive Phase where
  /-- before `thread_sensitive_context in self.context_to_thread_executor` -/
  | chosen
  | found
  | missing
  /-- before `run_in_executor` -/
  | executor (p : PoolId)
  | queued (p : PoolId)
  | running (p : PoolId)
  | ended
  | failed (e : Exn)
  deriving DecidableEq

structure Call where
  context : ContextId
  phase : Phase := .chosen
  /-- the future was cancelled before the worker took it -/
  cancelled : Bool := false
  /-- History: the worker that executed the function. -/
  worker : Option PoolId := none

structure State where
  /-- `context_to_thread_executor` -/
  table : ContextId → Option PoolId := fun _ => none
  /-- `token` is set -/
  tokens : ContextId → Bool := fun _ => false
  pools : PoolId → Option Pool := fun _ => none
  calls : CallId → Option Call := fun _ => none

namespace State

variable (s : State)

def setPool (p : PoolId) (x : Pool) : State := { s with pools := Function.update s.pools p (some x) }
def setCall (i : CallId) (c : Call) : State := { s with calls := Function.update s.calls i (some c) }
def setTable (m : ContextId) (p : Option PoolId) : State := { s with table := Function.update s.table m p }

@[simp] theorem pools_setPool (p q : PoolId) (x : Pool) :
    (s.setPool p x).pools q = if q = p then some x else s.pools q := by
  simp only [setPool, Function.update_apply]

@[simp] theorem calls_setCall (i j : CallId) (c : Call) :
    (s.setCall i c).calls j = if j = i then some c else s.calls j := by
  simp only [setCall, Function.update_apply]

@[simp] theorem table_setTable (m n : ContextId) (p : Option PoolId) :
    (s.setTable m p).table n = if n = m then p else s.table n := by
  simp only [setTable, Function.update_apply]

variable {s} in
theorem pools_setPool_cases {p q : PoolId} {x y : Pool} (h : (s.setPool p x).pools q = some y) :
    q = p ∧ x = y ∨ q ≠ p ∧ s.pools q = some y := by
  rw [pools_setPool] at h
  by_cases hqp : q = p
  · rw [if_pos hqp] at h
    exact .inl ⟨hqp, Option.some.inj h⟩
  · rw [if_neg hqp] at h
    exact .inr ⟨hqp, h⟩

variable {s} in
theorem calls_setCall_cases {i j : CallId} {c d : Call} (h : (s.setCall i c).calls j = some d) :
    j = i ∧ c = d ∨ j ≠ i ∧ s.calls j = some d := by
  rw [calls_setCall] at h
  by_cases hji : j = i
  · rw [if_pos hji] at h
    exact .inl ⟨hji, Option.some.inj h⟩
  · rw [if_neg hji] at h
    exact .inr ⟨hji, h⟩

@[simp] theorem pools_setCall (i : CallId) (c : Call) : (s.setCall i c).pools = s.pools := rfl
@[simp] theorem pools_setTable (m : ContextId) (p : Option PoolId) : (s.setTable m p).pools = s.pools := rfl

end State

/-- What can happen next.  Values of the user's context variables have the type `U`. -/
inductive Action (U : Type) where
  /-- `__aenter__` of the object `m` in the context `c` -/
  | enter (m : ContextId) (c : Context U)
  /-- `__aexit__`, up to the start of the helper thread -/
  | exit (m : ContextId)
  /-- `executor.shutdown()` in the helper thread -/
  | shutdown (p : PoolId)
  /-- a call on thread `tid` in the context `c` comes to the branch of the context object -/
  | call (i : CallId) (k : Choice) (tid : ThreadId) (c : Context U)
  /-- `thread_sensitive_context in self.context_to_thread_executor` -/
  | look (i : CallId)
  /-- `self.context_to_thread_executor[thread_sensitive_context]` -/
  | fetch (i : CallId)
  /-- the pool `p` is made and put into the table -/
  | create (i : CallId) (p : PoolId)
  /-- `run_in_executor` -/
  | submit (i : CallId)
  /-- the awaiting task is cancelled -/
  | cancel (i : CallId)
  /-- the worker takes the next item -/
  | start (p : PoolId)
  /-- the function has returned or raised -/
  | finish (p : PoolId)

variable {U : Type}

def step (s : State) : Action U → Option State
  | .enter m c =>
    if c.sensitiveContext.isNone then some { s with tokens := Function.update s.tokens m true } else some s
  | .exit m =>
    if s.tokens m then
      match s.table m with
      | none => some s
      | some p =>
        (s.pools p).map fun x => (s.setTable m none).setPool p { x with joining := true }
    else some s
  | .shutdown p => do
    let x ← s.pools p
    if x.joining then some (s.setPool p { x with isShutdown := true }) else none
  | .call i k tid c =>
    match chooseExecutor k tid c with
    | .ok (.ofContext m, _) => if (s.calls i).isNone then some (s.setCall i { context := m }) else none
    | _ => none
  | .look i => do
    let c ← s.calls i
    if c.phase = .chosen then
      some (s.setCall i { c with phase := if (s.table c.context).isSome then .found else .missing })
    else none
  | .fetch i => do
    let c ← s.calls i
    if c.phase = .found then
      match s.table c.context with
      | some p => some (s.setCall i { c with phase := .executor p })
      | none => some (s.setCall i { c with phase := .failed .keyError })
    else none
  | .create i p => do
    let c ← s.calls i
    if c.phase = .missing ∧ (s.pools p).isNone then
      some (((s.setPool p { owner := c.context }).setTable c.context (some p)).setCall i
        { c with phase := .executor p })
    else none
  | .submit i => do
    let c ← s.calls i
    match c.phase with
    | .executor p => do
      let x ← s.pools p
      if x.isShutdown then
        some (s.setCall i { c with phase := .failed (.runtimeError "cannot schedule new futures after shutdown") })
      else some ((s.setPool p { x with queue := x.queue ++ [i] }).setCall i { c with phase := .queued p })
    | _ => none
  | .cancel i => do
    let c ← s.calls i
    match c.phase with
    | .queued _ => some (s.setCall i { c with cancelled := true })
    | _ => some s
  | .start p => do
    let x ← s.pools p
    match x.current, x.queue with
    | none, i :: rest => do
      let c ← s.calls i
      if c.cancelled then
        some ((s.setPool p { x with queue := rest }).setCall i { c with phase := .ended })
      else
        some ((s.setPool p { x with queue := rest, current := some i }).setCall i
          { c with phase := .running p, worker := some p })
    | _, _ => none
  | .finish p => do
    let x ← s.pools p
    let i ← x.current
    let c ← s.calls i
    some ((s.setPool p { x with current := none }).setCall i { c with phase := .ended })

/-- Calls, workers and context objects. -/
def machine : Machine State (Action U) := ⟨step⟩

/-! ### What a step can do -/

/-- The pool a call goes to. -/
def Phase.pool? : Phase → Option PoolId
  | .executor p | .queued p | .running p => some p
  | _ => none

/-- The steps that matter to the pools, one constructor for each. -/
inductive StepTo (s : State) : Action U → State → Prop where
  | tokens {m c f} : StepTo s (.enter m c) { s with tokens := f }
  | same {a} : StepTo s a s
  | exit {m p x} : s.table m = some p → s.pools p = some x →
      StepTo s (.exit m) ((s.setTable m none).setPool p { x with joining := true })
  | shutdown {p x} : s.pools p = some x → StepTo s (.shutdown p) (s.setPool p { x with isShutdown := true })
  | call {i k tid c m} : s.calls i = none → StepTo s (.call i k tid c) (s.setCall i { context := m })
  /-- a step of a call on its way, without a pool or to the pool of its context in the table -/
  | goes {a i c f} : s.calls i = some c → c.phase.pool? = none ∨ (∃ p, c.phase = .executor p) →
      (f.pool? = none ∨ ∃ p, s.table c.context = some p ∧ f = .executor p) →
      StepTo s a (s.setCall i { c with phase := f })
  | create {i c p} : s.calls i = some c → c.phase = .missing → s.pools p = none →
      StepTo s (.create i p) (((s.setPool p { owner := c.context }).setTable c.context (some p)).setCall i
        { c with phase := .executor p })
  | submit {i c p x} : s.calls i = some c → c.phase = .executor p → s.pools p = some x →
      StepTo s (.submit i) ((s.setPool p { x with queue := x.queue ++ [i] }).setCall i { c with phase := .queued p })
  | cancel {i c p} : s.calls i = some c → c.phase = .queued p →
      StepTo s (.cancel i) (s.setCall i { c with cancelled := true })
  | drop {p x i rest c} : s.pools p = some x → x.queue = i :: rest → s.calls i = some c → c.cancelled = true →
      StepTo s (.start p) ((s.setPool p { x with queue := rest }).setCall i { c with phase := .ended })
  | start {p x i rest c} : s.pools p = some x → x.current = none → x.queue = i :: rest → s.calls i = some c →
      StepTo s (.start p) ((s.setPool p { x with queue := rest, current := some i }).setCall i
        { c with phase := .running p, worker := some p })
  | finish {p x i c} : s.pools p = some x → x.current = some i → s.calls i = some c →
      StepTo s (.finish p) ((s.setPool p { x with current := none }).setCall i { c with phase := .ended })

theorem stepTo_of_step {s s' : State} {a : Action U} (h : step s a = some s') : StepTo s a s' := by
  cases a with
  | enter m c =>
    simp only [step] at h
    split at h <;> cases h
    · exact .tokens
    · exact .same
  | exit m =>
    simp only [step] at h
    split at h
    · split at h
      · cases h; exact .same
      · obtain ⟨x, hx, rfl⟩ := Option.map_eq_some_iff.1 h
        exact .exit ‹_› hx
    · cases h; exact .same
  | shutdown p =>
    simp only [step, Option.bind_eq_bind, Option.bind_eq_some_iff, Option.ite_none_right_eq_some,
      Option.some.injEq] at h
    obtain ⟨x, hx, -, rfl⟩ := h
    exact .shutdown hx
  | call i k tid c =>
    simp only [step] at h
    split at h
    · split at h <;> cases h
      exact .call (Option.isNone_iff_eq_none.1 ‹_›)
    · cases h
  | look i =>
    simp only [step, Option.bind_eq_bind, Option.bind_eq_some_iff, Option.ite_none_right_eq_some,
      Option.some.injEq] at h
    obtain ⟨c, hc, hphase, rfl⟩ := h
    exact .goes hc (.inl (by rw [hphase]; rfl)) (.inl (by split <;> rfl))
  | fetch i =>
    simp only [step, Option.bind_eq_bind, Option.bind_eq_some_iff, Option.ite_none_right_eq_some] at h
    obtain ⟨c, hc, hphase, h⟩ := h
    have hnone : c.phase.pool? = none := by rw [hphase]; rfl
    split at h <;> cases h
    · exact .goes hc (.inl hnone) (.inr ⟨_, ‹_›, rfl⟩)
    · exact .goes hc (.inl hnone) (.inl rfl)
  | create i p =>
    simp only [step, Option.bind_eq_bind, Option.bind_eq_some_iff, Option.ite_none_right_eq_some,
      Option.some.injEq] at h
    obtain ⟨c, hc, ⟨hphase, hp⟩, rfl⟩ := h
    exact .create hc hphase (Option.isNone_iff_eq_none.1 hp)
  | submit i =>
    simp only [step, Option.bind_eq_bind, Option.bind_eq_some_iff] at h
    obtain ⟨c, hc, h⟩ := h
    split at h
    · next p hphase =>
      simp only [Option.bind_eq_some_iff] at h
      obtain ⟨x, hx, h⟩ := h
      split at h <;> cases h
      · exact .goes hc (.inr ⟨p, hphase⟩) (.inl rfl)
      · exact .submit hc hphase hx
    · cases h
  | cancel i =>
    simp only [step, Option.bind_eq_bind, Option.bind_eq_some_iff] at h
    obtain ⟨c, hc, h⟩ := h
    split at h <;> cases h
    · exact .cancel hc ‹_›
    · exact .same
  | start p =>
    simp only [step, Option.bind_eq_bind, Option.bind_eq_some_iff] at h
    obtain ⟨x, hx, h⟩ := h
    split at h
    · next i rest hcur hq =>
      simp only [Option.bind_eq_some_iff] at h
      obtain ⟨c, hc, h⟩ := h
      split at h <;> cases h
      · exact .drop hx hq hc ‹_›
      · exact .start hx hcur hq hc
    · cases h
  | finish p =>
    simp only [step, Option.bind_eq_bind, Option.bind_eq_some_iff, Option.some.injEq] at h
    obtain ⟨x, hx, i, hi, c, hc, rfl⟩ := h
    exact .finish hx hi hc

/-! ### What all steps keep -/

/-- The pools, the table and the calls fit together. -/
structure Inv (s : State) : Prop where
  /-- the table maps a context object to a pool made for it -/
  table : ∀ m p, s.table m = some p → ∃ x, s.pools p = some x ∧ x.owner = m
  /-- a call goes to a pool of its context object -/
  goes : ∀ i c p, s.calls i = some c → c.phase.pool? = some p → ∃ x, s.pools p = some x ∧ x.owner = c.context
  /-- and was executed by a worker of one -/
  worker : ∀ i c p, s.calls i = some c → c.worker = some p → ∃ x, s.pools p = some x ∧ x.owner = c.context
  queued : ∀ p x i, s.pools p = some x → i ∈ x.queue → ∃ c, s.calls i = some c ∧ c.phase = .queued p
  nodup : ∀ p x, s.pools p = some x → x.queue.Nodup
  /-- the worker executes one function at a time -/
  running : ∀ i c p, s.calls i = some c → c.phase = .running p → ∃ x, s.pools p = some x ∧ x.current = some i
  current : ∀ p x i, s.pools p = some x → x.current = some i → ∃ c, s.calls i = some c ∧ c.phase = .running p

theorem inv_init : Inv {} where
  table := nofun
  goes := nofun
  worker := nofun
  queued := nofun
  nodup := nofun
  running := nofun
  current := nofun

section Updates

variable {s : State}

theorem owned_setPool {p q : PoolId} {x x' : Pool} {m : ContextId} (hx : s.pools p = some x)
    (ho : x'.owner = x.owner) (h : ∃ y, s.pools q = some y ∧ y.owner = m) :
    ∃ y, (s.setPool p x').pools q = some y ∧ y.owner = m := by
  obtain ⟨y, hy, hm⟩ := h
  rw [State.pools_setPool]
  by_cases hq : q = p
  · subst hq
    cases hx.symm.trans hy
    exact ⟨x', if_pos rfl, ho.trans hm⟩
  · exact ⟨y, by rw [if_neg hq, hy], hm⟩

/-- The pool of a call, by its phase. -/
theorem Inv.owner (h : Inv s) {i : CallId} {c : Call} {p : PoolId} {x : Pool} (hc : s.calls i = some c)
    (hp : c.phase.pool? = some p) (hx : s.pools p = some x) : x.owner = c.context := by
  obtain ⟨y, hy, ho⟩ := h.goes i c p hc hp
  cases hx.symm.trans hy
  exact ho

/-- A call that is not in the queue of a pool by its phase is not there. -/
theorem Inv.notMem_queue (h : Inv s) {i : CallId} {c : Call} {p : PoolId} {x : Pool} (hc : s.calls i = some c)
    (hx : s.pools p = some x) (hphase : c.phase ≠ .queued p) : i ∉ x.queue := by
  intro hi
  obtain ⟨d, hd, hqueued⟩ := h.queued p x i hx hi
  cases hc.symm.trans hd
  exact hphase hqueued

theorem Inv.queued_of_mem (h : Inv s) {i : CallId} {c : Call} {p : PoolId} {x : Pool} (hc : s.calls i = some c)
    (hx : s.pools p = some x) (hi : i ∈ x.queue) : c.phase = .queued p := by
  by_contra hne
  exact h.notMem_queue hc hx hne hi

/-- The worker of a pool executes a call iff the phase of the call says so. -/
theorem Inv.current_iff (h : Inv s) {i : CallId} {c : Call} {p : PoolId} {x : Pool} (hc : s.calls i = some c)
    (hx : s.pools p = some x) : x.current = some i ↔ c.phase = .running p := by
  constructor
  · intro hcur
    obtain ⟨d, hd, hrunning⟩ := h.current p x i hx hcur
    cases hc.symm.trans hd
    exact hrunning
  · intro hrunning
    obtain ⟨y, hy, hcur⟩ := h.running i c p hc hrunning
    cases hx.symm.trans hy
    exact hcur

/-- A change of a pool that leaves its queue and its worker alone. -/
theorem Inv.setPool (h : Inv s) {p : PoolId} {x x' : Pool} (hx : s.pools p = some x) (ho : x'.owner = x.owner)
    (hq : x'.queue = x.queue) (hc : x'.current = x.current) : Inv (s.setPool p x') where
  table m q hm := owned_setPool hx ho (h.table m q hm)
  goes i c q hi hphase := owned_setPool hx ho (h.goes i c q hi hphase)
  worker i c q hi hw := owned_setPool hx ho (h.worker i c q hi hw)
  queued q y i hy hi := by
    obtain ⟨rfl, rfl⟩ | ⟨-, hy⟩ := State.pools_setPool_cases hy
    · exact h.queued q x i hx (hq ▸ hi)
    · exact h.queued q y i hy hi
  nodup q y hy := by
    obtain ⟨rfl, rfl⟩ | ⟨-, hy⟩ := State.pools_setPool_cases hy
    · rw [hq]
      exact h.nodup q x hx
    · exact h.nodup q y hy
  running i c q hi hphase := by
    obtain ⟨y, hy, hcur⟩ := h.running i c q hi hphase
    rw [State.pools_setPool]
    by_cases hqp : q = p
    · subst hqp
      cases hx.symm.trans hy
      exact ⟨x', if_pos rfl, hc.trans hcur⟩
    · exact ⟨y, by rw [if_neg hqp, hy], hcur⟩
  current q y i hy hi := by
    obtain ⟨rfl, rfl⟩ | ⟨-, hy⟩ := State.pools_setPool_cases hy
    · exact h.current q x i hx (hc ▸ hi)
    · exact h.current q y i hy hi

/-- A change of the table. -/
theorem Inv.setTable (h : Inv s) (m : ContextId) (o : Option PoolId)
    (ho : ∀ p, o = some p → ∃ x, s.pools p = some x ∧ x.owner = m) : Inv (s.setTable m o) where
  table n p hn := by
    rw [State.table_setTable] at hn
    by_cases hnm : n = m
    · rw [if_pos hnm] at hn
      rw [hnm]
      exact ho p hn
    · rw [if_neg hnm] at hn
      exact h.table n p hn
  goes := h.goes
  worker := h.worker
  queued := h.queued
  nodup := h.nodup
  running := h.running
  current := h.current

/-- A call in no queue and with no worker. -/
def Phase.Idle (f : Phase) : Prop := ∀ p, f ≠ .queued p ∧ f ≠ .running p

/-- A step of a call on its way to a queue, or a new call. -/
theorem Inv.setCall (h : Inv s) {i : CallId} {c' : Call} (hidle : ∀ c, s.calls i = some c → c.phase.Idle)
    (hidle' : c'.phase.Idle) (hgoes : ∀ p, c'.phase.pool? = some p → ∃ x, s.pools p = some x ∧ x.owner = c'.context)
    (hworker : ∀ p, c'.worker = some p → ∃ x, s.pools p = some x ∧ x.owner = c'.context) : Inv (s.setCall i c') where
  table := h.table
  goes j c p hj hphase := by
    obtain ⟨rfl, rfl⟩ | ⟨-, hj⟩ := State.calls_setCall_cases hj
    · exact hgoes p hphase
    · exact h.goes j c p hj hphase
  worker j c p hj hw := by
    obtain ⟨rfl, rfl⟩ | ⟨-, hj⟩ := State.calls_setCall_cases hj
    · exact hworker p hw
    · exact h.worker j c p hj hw
  queued p x j hx hj := by
    obtain ⟨c, hc, hphase⟩ := h.queued p x j hx hj
    rw [State.calls_setCall]
    by_cases hji : j = i
    · subst hji
      exact absurd hphase (hidle c hc p).1
    · exact ⟨c, by rw [if_neg hji, hc], hphase⟩
  nodup := h.nodup
  running j c p hj hphase := by
    obtain ⟨rfl, rfl⟩ | ⟨-, hj⟩ := State.calls_setCall_cases hj
    · exact absurd hphase (hidle' p).2
    · exact h.running j c p hj hphase
  current p x j hx hj := by
    obtain ⟨c, hc, hphase⟩ := h.current p x j hx hj
    rw [State.calls_setCall]
    by_cases hji : j = i
    · subst hji
      exact absurd hphase (hidle c hc p).2
    · exact ⟨c, by rw [if_neg hji, hc], hphase⟩

/-- A step of the call `i` into the queue of its pool `p`, out of it, or to its worker and away from it. -/
theorem Inv.move (h : Inv s) {p : PoolId} {x x' : Pool} {i : CallId} {c c' : Call} (hx : s.pools p = some x)
    (hc : s.calls i = some c) (hfrom : c.phase.pool? = some p)
    (ho : x'.owner = x.owner) (hctx : c'.context = c.context) (hworker : c'.worker = c.worker ∨ c'.worker = some p)
    (hpool : ∀ q, c'.phase.pool? = some q → q = p)
    (hqueue : ∀ j, j ≠ i → j ∈ x'.queue → j ∈ x.queue) (hnodup : x'.queue.Nodup)
    (hcurrent : ∀ j, j ≠ i → (x'.current = some j ↔ x.current = some j))
    (hin : i ∈ x'.queue → c'.phase = .queued p) (hrun : x'.current = some i ↔ c'.phase = .running p) :
    Inv ((s.setPool p x').setCall i c') where
  table m q hm := owned_setPool hx ho (h.table m q hm)
  goes j d q hj hphase := by
    refine owned_setPool hx ho ?_
    obtain ⟨rfl, rfl⟩ | ⟨-, hj⟩ := State.calls_setCall_cases hj
    · rw [hpool q hphase, hctx]
      exact ⟨x, hx, h.owner hc hfrom hx⟩
    · exact h.goes j d q hj hphase
  worker j d q hj hw := by
    refine owned_setPool hx ho ?_
    obtain ⟨rfl, rfl⟩ | ⟨-, hj⟩ := State.calls_setCall_cases hj
    · rw [hctx]
      obtain hsame | hp := hworker
      · exact h.worker j c q hc (hsame ▸ hw)
      · cases hp.symm.trans hw
        exact ⟨x, hx, h.owner hc hfrom hx⟩
    · exact h.worker j d q hj hw
  queued q y j hy hj := by
    rw [State.calls_setCall]
    by_cases hji : j = i
    · subst hji
      refine ⟨c', if_pos rfl, ?_⟩
      obtain ⟨rfl, rfl⟩ | ⟨hqp, hy⟩ := State.pools_setPool_cases hy
      · exact hin hj
      · have hq : c.phase.pool? = some q := by rw [h.queued_of_mem hc hy hj]; rfl
        exact absurd (Option.some.inj (hq.symm.trans hfrom)) hqp
    · rw [if_neg hji]
      obtain ⟨rfl, rfl⟩ | ⟨-, hy⟩ := State.pools_setPool_cases hy
      · exact h.queued q x j hx (hqueue j hji hj)
      · exact h.queued q y j hy hj
  nodup q y hy := by
    obtain ⟨rfl, rfl⟩ | ⟨-, hy⟩ := State.pools_setPool_cases hy
    · exact hnodup
    · exact h.nodup q y hy
  running j d q hj hphase := by
    rw [State.pools_setCall, State.pools_setPool]
    obtain ⟨rfl, rfl⟩ | ⟨hji, hj⟩ := State.calls_setCall_cases hj
    · have hq : q = p := hpool q (by rw [hphase]; rfl)
      exact ⟨x', if_pos hq, hrun.2 (hq ▸ hphase)⟩
    · obtain ⟨y, hy, hcur⟩ := h.running j d q hj hphase
      by_cases hqp : q = p
      · subst hqp
        cases hx.symm.trans hy
        exact ⟨x', if_pos rfl, (hcurrent j hji).2 hcur⟩
      · exact ⟨y, by rw [if_neg hqp, hy], hcur⟩
  current q y j hy hj := by
    rw [State.calls_setCall]
    by_cases hji : j = i
    · subst hji
      refine ⟨c', if_pos rfl, ?_⟩
      obtain ⟨rfl, rfl⟩ | ⟨hqp, hy⟩ := State.pools_setPool_cases hy
      · exact hrun.1 hj
      · have hq : c.phase.pool? = some q := by rw [(h.current_iff hc hy).1 hj]; rfl
        exact absurd (Option.some.inj (hq.symm.trans hfrom)) hqp
    · rw [if_neg hji]
      obtain ⟨rfl, rfl⟩ | ⟨-, hy⟩ := State.pools_setPool_cases hy
      · exact h.current q x j hx ((hcurrent j hji).1 hj)
      · exact h.current q y j hy hj

/-- A pool that did not exist before. -/
theorem Inv.newPool (h : Inv s) {p : PoolId} (hp : s.pools p = none) (m : ContextId) :
    Inv (s.setPool p { owner := m }) := by
  have hkeep : ∀ {q : PoolId} {y : Pool}, s.pools q = some y → (s.setPool p { owner := m }).pools q = some y := by
    intro q y hy
    rw [State.pools_setPool, if_neg (by rintro rfl; rw [hp] at hy; cases hy), hy]
  have hold : ∀ {q : PoolId} {y : Pool}, (s.setPool p { owner := m }).pools q = some y →
      s.pools q = some y ∨ y = { owner := m } := by
    intro q y hy
    obtain ⟨-, rfl⟩ | ⟨-, hy⟩ := State.pools_setPool_cases hy
    · exact .inr rfl
    · exact .inl hy
  refine ⟨fun n q hn => ?_, fun i c q hi hphase => ?_, fun i c q hi hw => ?_, fun q y i hy hi => ?_, fun q y hy => ?_,
    fun i c q hi hphase => ?_, fun q y i hy hi => ?_⟩
  · obtain ⟨y, hy, ho⟩ := h.table n q hn
    exact ⟨y, hkeep hy, ho⟩
  · obtain ⟨y, hy, ho⟩ := h.goes i c q hi hphase
    exact ⟨y, hkeep hy, ho⟩
  · obtain ⟨y, hy, ho⟩ := h.worker i c q hi hw
    exact ⟨y, hkeep hy, ho⟩
  · obtain hy | rfl := hold hy
    · exact h.queued q y i hy hi
    · exact absurd hi List.not_mem_nil
  · obtain hy | rfl := hold hy
    · exact h.nodup q y hy
    · exact List.nodup_nil
  · obtain ⟨y, hy, hcur⟩ := h.running i c q hi hphase
    exact ⟨y, hkeep hy, hcur⟩
  · obtain hy | rfl := hold hy
    · exact h.current q y i hy hi
    · cases hi

end Updates

theorem State.setPool_self {s : State} {p : PoolId} {x : Pool} (hx : s.pools p = some x) : s.setPool p x = s := by
  unfold State.setPool
  rw [← hx, Function.update_eq_self]

theorem idle_of_pool_none {f : Phase} (h : f.pool? = none) : f.Idle := by
  intro p
  constructor
  · rintro rfl
    cases h
  · rintro rfl
    cases h

theorem idle_executor (p : PoolId) : (Phase.executor p).Idle := fun _ => ⟨nofun, nofun⟩

/-- **The step lemma.** -/
theorem inv_step {s s' : State} {a : Action U} (h : Inv s) (hs : step s a = some s') : Inv s' := by
  cases stepTo_of_step hs with
  | tokens => exact ⟨h.table, h.goes, h.worker, h.queued, h.nodup, h.running, h.current⟩
  | same => exact h
  | @exit m p x ht hx => exact (h.setTable m none nofun).setPool hx rfl rfl rfl
  | shutdown hx => exact h.setPool hx rfl rfl rfl
  | call hi => exact h.setCall (by rw [hi]; nofun) (fun _ => ⟨nofun, nofun⟩) nofun nofun
  | @goes _ i c f hc hfrom hto =>
    have hidle : c.phase.Idle := by
      obtain hnone | ⟨p, hp⟩ := hfrom
      · exact idle_of_pool_none hnone
      · rw [hp]
        exact idle_executor p
    have hidle' : f.Idle := by
      obtain hnone | ⟨p, -, rfl⟩ := hto
      · exact idle_of_pool_none hnone
      · exact idle_executor p
    refine h.setCall (fun d hd => ?_) hidle' (fun q hq => ?_) (fun q hq => h.worker i c q hc hq)
    · cases hc.symm.trans hd
      exact hidle
    · obtain hnone | ⟨p, ht, rfl⟩ := hto
      · cases hnone.symm.trans hq
      · cases hq
        exact h.table _ _ ht
  | @create i c p hc hphase hp =>
    have hpool : (s.setPool p { owner := c.context }).pools p = some { owner := c.context } := by
      rw [State.pools_setPool, if_pos rfl]
    have hkept := (h.newPool hp c.context).setTable c.context (some p) (by rintro q ⟨⟩; exact ⟨_, hpool, rfl⟩)
    refine hkept.setCall (fun d hd => ?_) (idle_executor p) (fun q hq => ?_) (fun q hq => hkept.worker i c q hc hq)
    · cases hc.symm.trans hd
      rw [hphase]
      exact fun _ => ⟨nofun, nofun⟩
    · cases hq
      exact ⟨_, hpool, rfl⟩
  | @submit i c p x hc hphase hx =>
    have hi : i ∉ x.queue := h.notMem_queue hc hx (by rw [hphase]; simp)
    refine h.move hx hc (by rw [hphase]; rfl) rfl rfl (.inl rfl)
      (by rintro q ⟨⟩; rfl) (fun j hj hmem => ?_) ?_ (fun _ _ => Iff.rfl) (fun _ => rfl) ⟨fun hcur => ?_, nofun⟩
    · simpa [hj] using hmem
    · refine List.nodup_append.2 ⟨h.nodup p x hx, List.nodup_singleton i, ?_⟩
      rintro j hj k hk rfl
      exact hi (List.mem_singleton.1 hk ▸ hj)
    · have hrunning := (h.current_iff hc hx).1 hcur
      rw [hphase] at hrunning
      cases hrunning
  | @cancel i c p hc hphase =>
    obtain ⟨x, hx, -⟩ := h.goes i c p hc (by rw [hphase]; rfl)
    rw [← State.setPool_self hx]
    refine h.move hx hc (by rw [hphase]; rfl) rfl rfl (.inl rfl) (fun q hq => ?_) (fun _ _ => id) (h.nodup p x hx)
      (fun _ _ => Iff.rfl) (fun _ => hphase) (show x.current = some i ↔ c.phase = .running p from h.current_iff hc hx)
    change c.phase.pool? = some q at hq
    rw [hphase] at hq
    cases hq
    rfl
  | @drop p x i rest c hx hq hc hcancelled =>
    have hphase : c.phase = .queued p := h.queued_of_mem hc hx (by rw [hq]; exact List.mem_cons_self ..)
    have hnodup := h.nodup p x hx
    rw [hq, List.nodup_cons] at hnodup
    refine h.move hx hc (by rw [hphase]; rfl) rfl rfl (.inl rfl) nofun (fun j _ hj => ?_) hnodup.2
      (fun _ _ => Iff.rfl) (fun hi => absurd hi hnodup.1) ⟨fun hcur => ?_, nofun⟩
    · rw [hq]
      exact List.mem_cons_of_mem i hj
    · have hrunning := (h.current_iff hc hx).1 hcur
      rw [hphase] at hrunning
      cases hrunning
  | @start p x i rest c hx hcur hq hc =>
    have hphase : c.phase = .queued p := h.queued_of_mem hc hx (by rw [hq]; exact List.mem_cons_self ..)
    have hnodup := h.nodup p x hx
    rw [hq, List.nodup_cons] at hnodup
    refine h.move hx hc (by rw [hphase]; rfl) rfl rfl (.inr rfl) (by rintro q ⟨⟩; rfl)
      (fun j _ hj => ?_) hnodup.2 (fun j hj => ?_) (fun hi => absurd hi hnodup.1) ⟨fun _ => rfl, fun _ => rfl⟩
    · rw [hq]
      exact List.mem_cons_of_mem i hj
    · rw [hcur]
      exact ⟨by rintro ⟨⟩; exact absurd rfl hj, nofun⟩
  | @finish p x i c hx hcur hc =>
    have hphase := (h.current_iff hc hx).1 hcur
    have hi : i ∉ x.queue := h.notMem_queue hc hx (by rw [hphase]; simp)
    refine h.move hx hc (by rw [hphase]; rfl) rfl rfl (.inl rfl) nofun (fun _ _ => id)
      (h.nodup p x hx) (fun j hj => ?_) (fun hmem => absurd hmem hi) ⟨nofun, nofun⟩
    rw [hcur]
    exact ⟨nofun, by rintro ⟨⟩; exact absurd rfl hj⟩

/-! ### One worker for each context object -/

/-- No context object has two pools. -/
def OnePool (s : State) : Prop :=
  ∀ p q x y, s.pools p = some x → s.pools q = some y → x.owner = y.owner → p = q

/-- The step makes no second pool for a context object: a pool is made for it, then, neither after `__aexit__` took
the first one out of the table, nor by two loops between whose looks into the table nothing was put there. -/
def FirstPool (s : State) : Action U → Prop
  | .create i _ => ∀ c, s.calls i = some c → ∀ q x, s.pools q = some x → x.owner ≠ c.context
  | _ => True

/-- The owner of a pool stays. -/
theorem owner_step {s s' : State} {a : Action U} (hs : step s a = some s') {p : PoolId} {x' : Pool}
    (hx' : s'.pools p = some x') : (∃ x, s.pools p = some x ∧ x.owner = x'.owner) ∨
      s.pools p = none ∧ ∃ i c, a = .create i p ∧ s.calls i = some c ∧ x'.owner = c.context := by
  have hset : ∀ {q : PoolId} {y y' : Pool}, s.pools q = some y →
      (s.setPool q y').pools p = some x' → y'.owner = y.owner → ∃ x, s.pools p = some x ∧ x.owner = x'.owner := by
    intro q y y' hy hp ho
    obtain ⟨rfl, rfl⟩ | ⟨-, hp⟩ := State.pools_setPool_cases hp
    · exact ⟨y, hy, ho.symm⟩
    · exact ⟨x', hp, rfl⟩
  cases stepTo_of_step hs with
  | tokens => exact .inl ⟨x', hx', rfl⟩
  | same => exact .inl ⟨x', hx', rfl⟩
  | call => exact .inl ⟨x', hx', rfl⟩
  | goes => exact .inl ⟨x', hx', rfl⟩
  | cancel => exact .inl ⟨x', hx', rfl⟩
  | exit _ hx => exact .inl (hset hx hx' rfl)
  | shutdown hx => exact .inl (hset hx hx' rfl)
  | submit _ _ hx => exact .inl (hset hx hx' rfl)
  | drop hx => exact .inl (hset hx hx' rfl)
  | start hx => exact .inl (hset hx hx' rfl)
  | finish hx => exact .inl (hset hx hx' rfl)
  | @create i c q hc _ hq =>
    obtain ⟨rfl, rfl⟩ | ⟨-, hx'⟩ := State.pools_setPool_cases hx'
    · exact .inr ⟨hq, i, c, rfl, hc, rfl⟩
    · exact .inl ⟨x', hx', rfl⟩

theorem onePool_step {s s' : State} {a : Action U} (h : OnePool s) (hC : FirstPool s a) (hs : step s a = some s') :
    OnePool s' := by
  intro p q x' y' hx' hy' howner
  obtain ⟨x, hx, hox⟩ | ⟨-, i, c, rfl, hc, hox⟩ := owner_step hs hx'
  · obtain ⟨y, hy, hoy⟩ | ⟨-, j, d, rfl, hd, hoy⟩ := owner_step hs hy'
    · exact h p q x y hx hy (by rw [hox, hoy, howner])
    · exact absurd (by rw [hox, howner, hoy]) (hC d hd p x hx)
  · obtain ⟨y, hy, hoy⟩ | ⟨-, j, d, hcreate, hd, hoy⟩ := owner_step hs hy'
    · exact absurd (by rw [hoy, ← howner, hox]) (hC c hc q y hy)
    · cases hcreate
      rfl

/-- All functions dispatched through one context object were executed by one worker, and no two are executed at
the same time. -/
structure OneWorker (s : State) : Prop where
  worker : ∀ i j c d p q, s.calls i = some c → s.calls j = some d → c.context = d.context →
    c.worker = some p → d.worker = some q → p = q
  running : ∀ i j c d p q, s.calls i = some c → s.calls j = some d → c.context = d.context →
    c.phase = .running p → d.phase = .running q → i = j

theorem oneWorker_of_onePool {s : State} (h : Inv s) (hone : OnePool s) : OneWorker s where
  worker i j c d p q hc hd hctx hp hq := by
    obtain ⟨x, hx, hox⟩ := h.worker i c p hc hp
    obtain ⟨y, hy, hoy⟩ := h.worker j d q hd hq
    exact hone p q x y hx hy (by rw [hox, hoy, hctx])
  running i j c d p q hc hd hctx hp hq := by
    obtain ⟨x, hx, hox⟩ := h.goes i c p hc (by rw [hp]; rfl)
    obtain ⟨y, hy, hoy⟩ := h.goes j d q hd (by rw [hq]; rfl)
    obtain rfl : p = q := hone p q x y hx hy (by rw [hox, hoy, hctx])
    obtain ⟨z, hz, hi⟩ := h.running i c p hc hp
    obtain ⟨w, hw, hj⟩ := h.running j d p hd hq
    cases hz.symm.trans hw
    exact Option.some.inj (hi.symm.trans hj)

/-- **One worker for each context object**, in every run in which no second pool is made for one. -/
theorem one_worker {as : List (Action U)} {s : State} (hrun : machine.run {} as = some s)
    (hC : machine.Meets FirstPool {} as) : OneWorker s := by
  have hboth : Inv s ∧ OnePool s := by
    refine machine.run_invariant_of_meets (I := fun s => Inv s ∧ OnePool s) ?_ ⟨inv_init, nofun⟩ hC hrun
    intro s a s' h hC hs
    exact ⟨inv_step h.1 hs, onePool_step h.2 hC hs⟩
  exact oneWorker_of_onePool hboth.1 hboth.2

/-- A context that carries the object 7, and a thread-sensitive call in it. -/
def inSeven : Context Unit := AList.insert .threadSensitiveContext 7 ∅

def sensitive : Choice := ⟨true, .loopDefault, none⟩

/-- Up to the look into the table. -/
def looked : List (Action Unit) := [.enter 7 ∅, .call 0 sensitive 1 inSeven, .look 0]

/-- Two tasks inside the block, the first cancelled: the second call finds the pool of the first. -/
def inside : List (Action Unit) :=
  looked ++ .create 0 0 :: [.submit 0, .start 0, .cancel 0, .call 1 sensitive 1 inSeven, .look 1, .fetch 1, .submit 1,
    .finish 0, .start 0, .exit 7, .shutdown 0]

/-- The second task outlives the block and calls after `__aexit__`, while the first function is still executed. -/
def outlives : List (Action Unit) :=
  looked ++ .create 0 0 :: [.submit 0, .start 0, .cancel 0, .exit 7, .call 1 sensitive 1 inSeven, .look 1, .create 1 1,
    .submit 1, .start 1]

theorem firstPool_of_ne_create {a : Action U} (h : ∀ i p, a ≠ .create i p) (s : State) : FirstPool s a := by
  unfold FirstPool
  split
  · exact absurd rfl (h _ _)
  · trivial

theorem meets_inside : machine.Meets FirstPool {} inside := by
  refine (machine.meets_append (t := (machine.run {} looked).get rfl) rfl).2 ⟨?_, ?_, fun _ _ => ?_⟩
  · exact machine.meets_of_forall (fun a ha => firstPool_of_ne_create (by rintro i p rfl; simp [looked] at ha)) _
  · intro c _ q x hx
    cases hx
  · exact machine.meets_of_forall (fun a ha => firstPool_of_ne_create (by rintro i p rfl; simp at ha)) _

theorem one_worker_inside : ∃ s, machine.run {} inside = some s ∧
    ((s.calls 0).bind Call.worker, (s.calls 1).bind Call.worker) = (some 0, some 0) ∧ OneWorker s :=
  ⟨_, rfl, rfl, one_worker rfl meets_inside⟩

/-- Two functions of the context object 7 are executed at the same time, by two workers. -/
theorem two_workers : ∃ s c d, machine.run {} outlives = some s ∧ s.calls 0 = some c ∧ s.calls 1 = some d ∧
    c.context = d.context ∧ c.phase = .running 0 ∧ d.phase = .running 1 ∧ ¬ OneWorker s := by
  refine ⟨_, _, _, rfl, rfl, rfl, rfl, rfl, rfl, fun h => ?_⟩
  exact absurd (h.running 0 1 _ _ 0 1 rfl rfl rfl rfl rfl) (by decide)

end Asgiref.Sync.SensitiveContext
