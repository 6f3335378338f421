import Asgiref.SyncToAsync.OwnLoop

/-!
# `AsyncToSync` in forked processes

`thread_handler` records `os.getpid()` beside the loop, and `AsyncToSync.__call__` takes the loop only if the number is
still that of its own process: a child has a copy of the parent's loop, but no thread that runs it.

* `State`, `step`: processes, each with a memory of its own (`ThreadHandler.State`); a child starts with a copy of its
  parent's and with the thread that forked; the system gives no two live processes one number, and gives the number of
  a dead one again;
* `OwnLoops`: what a call would take for its parent loop is run by the process of the call;
* `Fresh`: the condition on the steps, that the check of the number can tell the child from the process that the
  thread-local names, and that the child runs none of the work items it has copies of;
* `ownLoops_iff_fresh`: the first holds all along a run iff the second does.

A loop is run by the process that has opened it: a coroutine that forks goes on in the parent only.
-/

namespace Asgiref.SyncToAsync.Forks

open Asgiref.Python Asgiref.Lib
open ThreadHandler (CallId LoopId TaskId Frame SyncCall ThreadLocal mainEventLoop)

abbrev ProcessId := Nat

structure Process where
  memory : ThreadHandler.State
  /-- History: the memory that the fork has copied. -/
  atFork : ThreadHandler.State
  isAlive : Bool := true

/-- The process has a copy of the call, which was made in an ancestor. -/
def Process.inherits (x : Process) (c : CallId) : Bool := (x.atFork.syncCalls c).isSome

structure State where
  processes : ProcessId → Option Process
  /-- The process that runs the loop. -/
  home : LoopId → Option ProcessId := fun _ => none
  /-- The numbers of the live processes. -/
  pids : List Nat

namespace State

/-- One process, in which nothing has happened. -/
def init (pid : Nat) : State where
  processes p := if p = 0 then some { memory := ThreadHandler.State.init pid, atFork := ThreadHandler.State.init pid }
    else none
  pids := [pid]

variable (S : State)

def setProcess (p : ProcessId) (x : Process) : State := { S with processes := Function.update S.processes p (some x) }

@[simp] theorem processes_setProcess (p q : ProcessId) (x : Process) :
    (S.setProcess p x).processes q = if q = p then some x else S.processes q := by
  simp only [setProcess, Function.update_apply]

end State

inductive Action where
  /-- The process takes a step of its own. -/
  | act (p : ProcessId) (a : ThreadHandler.Action)
  /-- `os.fork()` in the code on top of the stack of the thread `t`; the child `q` gets the number `n`. -/
  | fork (p : ProcessId) (t : ThreadId) (q : ProcessId) (n : Nat)
  | exit (p : ProcessId)

/-- The process has what the step needs: its loop, if it takes place on one, and the task of the call. -/
def runsHere (S : State) (p : ProcessId) (x : Process) : ThreadHandler.Action → Bool
  | .openLoop l => (S.home l).isNone
  | .closeLoop l | .submit _ l => S.home l = some p
  | .register a | .resolve a | .remove a =>
    (x.atFork.asyncCalls a).isNone && match x.memory.asyncCalls a with
      | some r => r.ranOn.all fun l => S.home l = some p
      | none => false
  | .cancel c =>
    match x.memory.syncCalls c with
    | some y => S.home y.loop = some p
    | none => false
  | .startHandler _ _ | .endHandler _ | .callAsync _ _ _ | .leave _ => true

/-- The loops that are run after the step. -/
def homeAfter (S : State) (p : ProcessId) : ThreadHandler.Action → LoopId → Option ProcessId
  | .openLoop l => Function.update S.home l (some p)
  | _ => S.home

/-- A copy of the memory, with the thread that has forked and no other. -/
def forked (m : ThreadHandler.State) (t : ThreadId) (n : Nat) : ThreadHandler.State :=
  { m with
    pid := n
    busy := fun _ => none
    threads := Function.update (fun _ => {}) t (m.threads t) }

theorem threads_forked (m : ThreadHandler.State) (t u : ThreadId) (n : Nat) :
    (forked m t n).threads u = if u = t then m.threads t else {} := by
  simp only [forked, Function.update_apply]

/-- Code of its own is on top of the stack. -/
def runsCode : List Frame → Bool
  | .call _ :: _ => false
  | _ => true

def step (S : State) : Action → Option State
  | .act p a => do
    let x ← S.processes p
    if x.isAlive ∧ runsHere S p x a then do
      let m ← ThreadHandler.step x.memory a
      some { S.setProcess p { x with memory := m } with home := homeAfter S p a }
    else none
  | .fork p t q n => do
    let x ← S.processes p
    if x.isAlive ∧ runsCode (x.memory.threads t).stack ∧ (S.processes q).isNone ∧ n ∉ S.pids then
      some { S.setProcess q { memory := forked x.memory t n, atFork := x.memory } with pids := n :: S.pids }
    else none
  | .exit p => do
    let x ← S.processes p
    if x.isAlive then
      some { S.setProcess p { x with isAlive := false } with pids := S.pids.erase x.memory.pid }
    else none

/-- Processes that fork. -/
def machine : Machine State Action := ⟨step⟩

/-- What a call would take for its parent loop, in any process and on any thread, the process runs. -/
def OwnLoops (S : State) : Prop :=
  ∀ p x t force l, S.processes p = some x → mainEventLoop x.memory t force = some l → S.home l = some p

/-- A fork gives the child another number than its thread-local records, and a process starts no work item that it
has a copy of. -/
def Fresh (S : State) : Action → Prop
  | .fork p t _ n => ∀ x ∈ S.processes p, ∀ tl ∈ (x.memory.threads t).threadlocal, tl.mainEventLoopPid ≠ n
  | .act p (.startHandler c _) => ∀ x ∈ S.processes p, x.inherits c = false
  | _ => True

instance (S : State) (a : Action) : Decidable (Fresh S a) := by
  unfold Fresh
  split <;> infer_instance

/-! ### What a step can do -/

/-- The steps of the machine. -/
inductive StepTo (S : State) : Action → State → Prop where
  | act {p a x m} : S.processes p = some x → runsHere S p x a = true → ThreadHandler.step x.memory a = some m →
      StepTo S (.act p a) { S.setProcess p { x with memory := m } with home := homeAfter S p a }
  | fork {p t q n x} : S.processes p = some x → S.processes q = none →
      StepTo S (.fork p t q n)
        { S.setProcess q { memory := forked x.memory t n, atFork := x.memory } with pids := n :: S.pids }
  | exit {p x} : S.processes p = some x →
      StepTo S (.exit p) { S.setProcess p { x with isAlive := false } with pids := S.pids.erase x.memory.pid }

variable {S S' : State} {a : Action} {p : ProcessId} {x : Process}

theorem stepTo_of_step (h : step S a = some S') : StepTo S a S' := by
  cases a with
  | act p a =>
    simp only [step, Option.bind_eq_bind, Option.bind_eq_some_iff, Option.ite_none_right_eq_some,
      Option.some.injEq] at h
    obtain ⟨x, hx, ⟨-, hhere⟩, m, hm, rfl⟩ := h
    exact .act hx hhere hm
  | fork p t q n =>
    simp only [step, Option.bind_eq_bind, Option.bind_eq_some_iff, Option.ite_none_right_eq_some,
      Option.some.injEq] at h
    obtain ⟨x, hx, ⟨-, -, hq, -⟩, rfl⟩ := h
    exact .fork hx (Option.isNone_iff_eq_none.1 hq)
  | exit p =>
    simp only [step, Option.bind_eq_bind, Option.bind_eq_some_iff, Option.ite_none_right_eq_some,
      Option.some.injEq] at h
    obtain ⟨x, hx, -, rfl⟩ := h
    exact .exit hx

theorem processes_setProcess_cases {q : ProcessId} {y : Process} (h : (S.setProcess p x).processes q = some y) :
    q = p ∧ y = x ∨ q ≠ p ∧ S.processes q = some y := by
  rw [State.processes_setProcess] at h
  split at h
  · cases h
    exact .inl ⟨‹_›, rfl⟩
  · exact .inr ⟨‹_›, h⟩

/-! ### Steps in one process -/

section Memory

variable {m m' : ThreadHandler.State} {b : ThreadHandler.Action}

theorem pid_step (h : ThreadHandler.step m b = some m') : m'.pid = m.pid := by
  have honList : ∀ o f, (m.onList o f).pid = m.pid := by
    intro o f
    unfold ThreadHandler.State.onList
    split
    · rfl
    · split <;> rfl
  have hsetBusy : ∀ (u : ThreadHandler.State) o c, (u.setBusy o c).pid = u.pid := by
    intro u o c
    cases o <;> rfl
  cases ThreadHandler.stepTo_of_step h with
  | register => exact honList _ _
  | resolve => exact hsetBusy _ _ _
  | remove => exact (hsetBusy _ _ _).trans (honList _ _)
  | _ => rfl

/-- A thread keeps its thread-local, or `thread_handler` writes it. -/
theorem threadlocal_step (h : ThreadHandler.step m b = some m') (t : ThreadId) :
    (m'.threads t).threadlocal = (m.threads t).threadlocal ∨
      ∃ c y, b = .startHandler c t ∧ m.syncCalls c = some y ∧ (m'.threads t).threadlocal =
        some { mainEventLoop := y.loop, mainEventLoopPid := m.pid, taskContext := c } := by
  have hset : ∀ {u : ThreadId} {th : ThreadHandler.Thread}, th.threadlocal = (m.threads u).threadlocal →
      ((m.setThread u th).threads t).threadlocal = (m.threads t).threadlocal := by
    intro u th hth
    rw [ThreadHandler.State.threads_setThread]
    split
    · rw [hth, ‹t = u›]
    · rfl
  cases ThreadHandler.stepTo_of_step h with
  | @startHandler c u y hy =>
    rw [ThreadHandler.threads_threadHandler]
    by_cases htu : t = u
    · subst htu
      exact .inr ⟨c, y, rfl, hy, by rw [if_pos rfl]⟩
    · exact .inl (by rw [if_neg htu])
  | endHandler => exact .inl (hset rfl)
  | callAsync => exact .inl (hset rfl)
  | leave => exact .inl (hset rfl)
  | register => exact .inl (by simp)
  | resolve => exact .inl (by simp)
  | remove => exact .inl (by simp)
  | _ => exact .inl rfl

/-- A call is new because code on its loop has made it. -/
theorem submit_of_new (h : ThreadHandler.step m b = some m') {c : CallId} {y : SyncCall} (hc : m.syncCalls c = none)
    (hy : m'.syncCalls c = some y) : b = .submit c y.loop := by
  have hold : ∀ {P : Prop}, m.syncCalls c = some y → P := by
    intro P h
    rw [hc] at h
    cases h
  have honList : ∀ {P : Prop} o f, (m.onList o f).syncCalls c = some y → P := by
    intro P o f h
    rw [ThreadHandler.State.syncCalls_onList, hc] at h
    cases h
  cases ThreadHandler.stepTo_of_step h with
  | submit =>
    rw [ThreadHandler.State.syncCalls_setSync] at hy
    split at hy
    · cases hy
      subst c
      rfl
    · exact hold hy
  | @startHandler d t z hz =>
    rw [ThreadHandler.syncCalls_threadHandler] at hy
    split at hy
    · subst c
      rw [hz] at hc
      cases hc
    · exact hold hy
  | register => exact honList _ _ hy
  | remove => exact honList _ _ (by simpa using hy)
  | resolve => exact hold (by simpa using hy)
  | _ => exact hold hy

theorem mainEventLoop_eq_some_iff {t : ThreadId} {force : Bool} {l : LoopId} : mainEventLoop m t force = some l ↔
    force = false ∧ ∃ tl, (m.threads t).threadlocal = some tl ∧ tl.mainEventLoopPid = m.pid ∧ tl.mainEventLoop = l := by
  unfold mainEventLoop
  cases force <;> cases (m.threads t).threadlocal <;> simp

end Memory

/-! ### Whose loops they are -/

/-- Who runs the loops that the memories speak of. -/
structure Inv (S : State) : Prop where
  home : ∀ l p, S.home l = some p → (S.processes p).isSome
  /-- a copy stays in the memory -/
  copies : ∀ p x c, S.processes p = some x → x.inherits c = true → (x.memory.syncCalls c).isSome
  /-- a process runs the loop of a call exactly if the call is no copy -/
  calls : ∀ p x c y, S.processes p = some x → x.memory.syncCalls c = some y →
    ∃ r, S.home y.loop = some r ∧ (r = p ↔ x.inherits c = false)
  threadlocals : ∀ p x t tl, S.processes p = some x → (x.memory.threads t).threadlocal = some tl →
    (S.home tl.mainEventLoop).isSome

theorem inv_init (pid : Nat) : Inv (State.init pid) := by
  have hinit : ∀ {p x}, (State.init pid).processes p = some x →
      x.memory = ThreadHandler.State.init pid ∧ x.atFork = ThreadHandler.State.init pid := by
    intro p x h
    simp only [State.init, Option.ite_none_right_eq_some, Option.some.injEq] at h
    obtain ⟨-, rfl⟩ := h
    exact ⟨rfl, rfl⟩
  refine ⟨nofun, fun p x c hx h => ?_, fun p x c y hx h => ?_, fun p x t tl hx h => ?_⟩
  · rw [Process.inherits, (hinit hx).2] at h
    cases h
  · rw [(hinit hx).1] at h
    cases h
  · rw [(hinit hx).1] at h
    cases h

theorem ownLoops_init (pid : Nat) : OwnLoops (State.init pid) := by
  intro p x t force l hx hl
  simp only [State.init, Option.ite_none_right_eq_some, Option.some.injEq] at hx
  obtain ⟨-, rfl⟩ := hx
  obtain ⟨-, tl, htl, -⟩ := mainEventLoop_eq_some_iff.1 hl
  cases htl

/-- A loop that is run stays with its process. -/
theorem homeAfter_of_home {b : ThreadHandler.Action} (hhere : runsHere S p x b = true) {l : LoopId} {r : ProcessId}
    (h : S.home l = some r) : homeAfter S p b l = some r := by
  unfold homeAfter
  split
  · next k =>
    have hk : S.home k = none := Option.isNone_iff_eq_none.1 hhere
    have hlk : l ≠ k := by
      rintro rfl
      rw [hk] at h
      cases h
    rw [Function.update_of_ne hlk, h]
  · exact h

/-- A new loop is run by the process that opens it. -/
theorem homeAfter_cases {b : ThreadHandler.Action} {l : LoopId} {r : ProcessId} (h : homeAfter S p b l = some r) :
    S.home l = some r ∨ r = p := by
  unfold homeAfter at h
  split at h
  · rw [Function.update_apply] at h
    split at h
    · exact .inr (Option.some.inj h).symm
    · exact .inl h
  · exact .inl h

theorem isSome_setProcess {q : ProcessId} (h : (S.processes q).isSome) (r : ProcessId) :
    ((S.setProcess r x).processes q).isSome := by
  rw [State.processes_setProcess]
  split
  · rfl
  · exact h

/-- A step of one process. -/
theorem Inv.act (h : Inv S) {m : ThreadHandler.State} {b : ThreadHandler.Action} (hx : S.processes p = some x)
    (hhere : runsHere S p x b = true) (hm : ThreadHandler.step x.memory b = some m) :
    Inv { S.setProcess p { x with memory := m } with home := homeAfter S p b } where
  home l r hl := by
    obtain hl | rfl := homeAfter_cases hl
    · exact isSome_setProcess (h.home l r hl) p
    · exact isSome_setProcess (by rw [hx]; rfl) r
  copies q y c hq hc := by
    obtain ⟨rfl, rfl⟩ | ⟨-, hq⟩ := processes_setProcess_cases hq
    · obtain ⟨z, hz⟩ := Option.isSome_iff_exists.1 (h.copies q x c hx hc)
      obtain ⟨z', hz', -⟩ := ThreadHandler.loop_step hm hz
      rw [hz']
      rfl
    · exact h.copies q y c hq hc
  calls q y c z hq hz := by
    obtain ⟨rfl, rfl⟩ | ⟨-, hq⟩ := processes_setProcess_cases hq
    · cases hc : x.memory.syncCalls c with
      | some w =>
        obtain ⟨w', hw', hloop⟩ := ThreadHandler.loop_step hm hc
        cases hz.symm.trans hw'
        obtain ⟨r, hr, hiff⟩ := h.calls q x c w hx hc
        exact ⟨r, homeAfter_of_home hhere (by rw [hloop, hr]), hiff⟩
      | none =>
        -- a new call is made on a loop of the process, and is no copy
        obtain rfl := submit_of_new hm hc hz
        have hhome : S.home z.loop = some q := by simpa [runsHere] using hhere
        refine ⟨q, homeAfter_of_home hhere hhome, iff_of_true rfl ?_⟩
        by_contra hcopy
        have hsome := h.copies q x c hx (Bool.of_not_eq_false hcopy)
        rw [hc] at hsome
        cases hsome
    · obtain ⟨r, hr, hiff⟩ := h.calls q y c z hq hz
      exact ⟨r, homeAfter_of_home hhere hr, hiff⟩
  threadlocals q y t tl hq htl := by
    have hkeep : ∀ {l : LoopId}, (S.home l).isSome → (homeAfter S p b l).isSome := by
      intro l hl
      obtain ⟨r, hr⟩ := Option.isSome_iff_exists.1 hl
      rw [homeAfter_of_home hhere hr]
      rfl
    obtain ⟨rfl, rfl⟩ | ⟨-, hq⟩ := processes_setProcess_cases hq
    · obtain hsame | ⟨c, z, -, hz, hset⟩ := threadlocal_step hm t
      · exact hkeep (h.threadlocals q x t tl hx (hsame ▸ htl))
      · cases hset.symm.trans htl
        obtain ⟨r, hr, -⟩ := h.calls q x c z hx hz
        exact hkeep (by rw [hr]; rfl)
    · exact hkeep (h.threadlocals q y t tl hq htl)

/-- The child has copies of the calls, whose loops it does not run. -/
theorem Inv.fork (h : Inv S) {t : ThreadId} {q : ProcessId} {n : Nat} (hx : S.processes p = some x)
    (hq : S.processes q = none) :
    Inv { S.setProcess q { memory := forked x.memory t n, atFork := x.memory } with pids := n :: S.pids } where
  home l r hl := isSome_setProcess (h.home l r hl) q
  copies r y c hr hc := by
    obtain ⟨rfl, rfl⟩ | ⟨-, hr⟩ := processes_setProcess_cases hr
    · exact hc
    · exact h.copies r y c hr hc
  calls r y c z hr hz := by
    obtain ⟨rfl, rfl⟩ | ⟨-, hr⟩ := processes_setProcess_cases hr
    · obtain ⟨o, ho, -⟩ := h.calls p x c z hx hz
      refine ⟨o, ho, iff_of_false ?_ ?_⟩
      · rintro rfl
        have hsome := h.home _ _ ho
        rw [hq] at hsome
        cases hsome
      · have hz' : x.memory.syncCalls c = some z := hz
        simp [Process.inherits, hz']
    · exact h.calls r y c z hr hz
  threadlocals r y u tl hr htl := by
    obtain ⟨rfl, rfl⟩ | ⟨-, hr⟩ := processes_setProcess_cases hr
    · rw [threads_forked] at htl
      split at htl
      · exact h.threadlocals p x t tl hx htl
      · cases htl
    · exact h.threadlocals r y u tl hr htl

theorem inv_step (h : Inv S) (hs : step S a = some S') : Inv S' := by
  cases stepTo_of_step hs with
  | act hx hhere hm => exact h.act hx hhere hm
  | fork hx hq => exact h.fork hx hq
  | @exit p x hx =>
    have hcases : ∀ {q y}, (S.setProcess p { x with isAlive := false }).processes q = some y →
        ∃ z, S.processes q = some z ∧ z.memory = y.memory ∧ z.atFork = y.atFork := by
      intro q y hq
      obtain ⟨rfl, rfl⟩ | ⟨-, hq⟩ := processes_setProcess_cases hq
      · exact ⟨x, hx, rfl, rfl⟩
      · exact ⟨y, hq, rfl, rfl⟩
    refine ⟨fun l r hl => isSome_setProcess (h.home l r hl) p, fun q y c hq hc => ?_, fun q y c z hq hz => ?_,
      fun q y t tl hq htl => ?_⟩
    · obtain ⟨w, hw, hmem, hfork⟩ := hcases hq
      rw [← hmem]
      exact h.copies q w c hw (by rwa [Process.inherits, hfork])
    · obtain ⟨w, hw, hmem, hfork⟩ := hcases hq
      rw [Process.inherits, ← hfork]
      exact h.calls q w c z hw (hmem ▸ hz)
    · obtain ⟨w, hw, hmem, -⟩ := hcases hq
      exact h.threadlocals q w t tl hw (hmem ▸ htl)

/-! ### The exact condition -/

theorem ownLoops_step (h : Inv S) (hown : OwnLoops S) (hC : Fresh S a) (hs : step S a = some S') : OwnLoops S' := by
  intro q y t force l hq hl
  cases stepTo_of_step hs with
  | @act p b x m hx hhere hm =>
    obtain ⟨rfl, rfl⟩ | ⟨-, hq⟩ := processes_setProcess_cases hq
    · obtain ⟨hforce, tl, htl, hpid, hloop⟩ := mainEventLoop_eq_some_iff.1 hl
      refine homeAfter_of_home hhere ?_
      obtain hsame | ⟨c, z, rfl, hz, hset⟩ := threadlocal_step hm t
      · refine hown q x t force l hx (mainEventLoop_eq_some_iff.2 ⟨hforce, tl, hsame ▸ htl, ?_, hloop⟩)
        rw [hpid, pid_step hm]
      · cases hset.symm.trans htl
        obtain ⟨r, hr, hiff⟩ := h.calls q x c z hx hz
        rw [← hloop, hr, hiff.2 (hC x hx)]
    · exact homeAfter_of_home hhere (hown q y t force l hq hl)
  | @fork p u r n x hx hr =>
    obtain ⟨rfl, rfl⟩ | ⟨-, hq⟩ := processes_setProcess_cases hq
    · obtain ⟨-, tl, htl, hpid, -⟩ := mainEventLoop_eq_some_iff.1 hl
      rw [threads_forked] at htl
      split at htl
      · exact absurd hpid (hC x hx tl htl)
      · cases htl
    · exact hown q y t force l hq hl
  | exit hx =>
    obtain ⟨rfl, rfl⟩ | ⟨-, hq⟩ := processes_setProcess_cases hq
    · exact hown q _ t force l hx hl
    · exact hown q y t force l hq hl

/-- The child passes the check with the loop of another process. -/
theorem not_ownLoops_of_fork (h : Inv S) {t : ThreadId} {q : ProcessId} {n : Nat} (hq : S.processes q = none)
    {tl : ThreadLocal} (htl : (x.memory.threads t).threadlocal = some tl) (hpid : tl.mainEventLoopPid = n) :
    ¬ OwnLoops { S.setProcess q { memory := forked x.memory t n, atFork := x.memory } with pids := n :: S.pids } := by
  intro hown
  have hhome : S.home tl.mainEventLoop = some q := by
    refine hown q _ t false tl.mainEventLoop (by rw [State.processes_setProcess, if_pos rfl]) ?_
    exact mainEventLoop_eq_some_iff.2 ⟨rfl, tl, by rw [threads_forked, if_pos rfl, htl], hpid, rfl⟩
  have hsome := h.home _ _ hhome
  rw [hq] at hsome
  cases hsome

/-- `thread_handler` writes the loop of a copied item into the thread-local, with the number of the child. -/
theorem not_ownLoops_of_startHandler (h : Inv S) {c : CallId} {t : ThreadId} {m : ThreadHandler.State}
    (hx : S.processes p = some x) (hm : ThreadHandler.step x.memory (.startHandler c t) = some m)
    (hcopy : x.inherits c = true) : ¬ OwnLoops { S.setProcess p { x with memory := m } with home := S.home } := by
  intro hown
  cases ThreadHandler.stepTo_of_step hm with
  | @startHandler _ _ z hz =>
    obtain ⟨r, hr, hiff⟩ := h.calls p x c z hx hz
    have hhome : S.home z.loop = some p := by
      refine hown p _ t false z.loop (by rw [State.processes_setProcess, if_pos rfl]) ?_
      exact mainEventLoop_eq_some_iff.2 ⟨rfl, _, by rw [ThreadHandler.threads_threadHandler, if_pos rfl], rfl, rfl⟩
    rw [hiff.1 (Option.some.inj (hr.symm.trans hhome))] at hcopy
    cases hcopy

/-- **A call takes a loop of its own process**, all along a run, iff no fork gives the child the number that its
thread-local records and no child runs an item that it has a copy of. -/
theorem ownLoops_iff_fresh {pid : Nat} {as : List Action} (hrun : machine.run (State.init pid) as = some S) :
    machine.Along (fun _ _ S' => OwnLoops S') (State.init pid) as ↔ machine.Meets Fresh (State.init pid) as := by
  refine machine.along_iff_meets (K := fun S => Inv S ∧ OwnLoops S) ?_ ?_ ⟨inv_init pid, ownLoops_init pid⟩ hrun
  · intro S a S' h hC hs
    have hown := ownLoops_step h.1 h.2 hC hs
    exact ⟨hown, inv_step h.1 hs, hown⟩
  · intro S a S' h hC hs hown
    refine hC ?_
    cases stepTo_of_step hs with
    | @fork p t q n x hx hq =>
      intro y hy tl htl hpid
      cases hx.symm.trans hy
      exact not_ownLoops_of_fork h.1 hq htl hpid hown
    | @act p b x _ hx _ hm =>
      cases b with
      | startHandler c t =>
        intro y hy
        cases hx.symm.trans hy
        by_contra hcopy
        exact not_ownLoops_of_startHandler h.1 hx hm (Bool.of_not_eq_false hcopy) hown
      | _ => trivial
    | exit => trivial

/-- The coroutine of an `AsyncToSync` call on the loop 0 hands two functions to the thread of the call, and the first
forks. -/
def child : List Action :=
  [.act 0 (.callAsync 3 1 false), .act 0 (.openLoop 0), .act 0 (.submit 0 0), .act 0 (.submit 1 0),
    .act 0 (.startHandler 0 1), .fork 0 1 1 101]

/-- The child calls `AsyncToSync`, and again from a function on its new loop, which forks when the number of the first
process is free. -/
def grandchild : List Action :=
  child ++ [.act 1 (.callAsync 0 1 false), .act 1 (.openLoop 1), .act 1 (.submit 2 1), .act 1 (.startHandler 2 2),
    .act 1 (.callAsync 1 2 false), .act 1 (.register 1), .act 1 (.resolve 1), .act 1 (.remove 1), .act 1 (.leave 2),
    .exit 0, .fork 1 2 2 100]

theorem ownLoops_grandchild : machine.Along (fun _ _ S' => OwnLoops S') (State.init 100) grandchild :=
  (ownLoops_iff_fresh (S := (machine.run (State.init 100) grandchild).get rfl) rfl).2 (by decide)

/-- A grandchild with the number that the thread-local records, and a child that returns from the first function and
runs the second: either takes the loop of the first process. -/
theorem takes_foreign_loop :
    (∃ S x, machine.run (State.init 100) (child ++ [.exit 0, .fork 1 1 2 100]) = some S ∧ S.processes 2 = some x ∧
      mainEventLoop x.memory 1 false = some 0 ∧ S.home 0 = some 0) ∧
    ∃ S x, machine.run (State.init 100) (child ++ [.act 1 (.endHandler 1), .act 1 (.startHandler 1 1)]) = some S ∧
      S.processes 1 = some x ∧ mainEventLoop x.memory 1 false = some 0 ∧ S.home 0 = some 0 :=
  ⟨⟨_, _, rfl, rfl, rfl, rfl⟩, ⟨_, _, rfl, rfl, rfl, rfl⟩⟩

end Asgiref.SyncToAsync.Forks
