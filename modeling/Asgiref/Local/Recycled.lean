import Asgiref.Local.Heap
import Asgiref.Sync.Visibility

/-!
# Identifiers that are given to a second thread

Threads that begin with a copy of the context of the thread that starts them, and end; the identifier of a thread that
has ended may be given to a new one.

* `Thread`, `State`, `machine`: the threads, each with the context it runs in and what it has written;
* `ReadsOwn`: a thread reads nothing but what it has written itself;
* `Fresh`: the condition on the steps, that a new thread does not get the identifier of the owner of inherited data;
* `readsOwn_iff`: the runs in which threads read their own data only are those that meet it.
-/

namespace Asgiref.Local.Recycled

open Asgiref.Python Asgiref.Lib
open Asgiref.Sync.Visibility (Fact)

structure Thread (U : Type) where
  /-- `threading.get_ident()` -/
  ident : ThreadId
  ctx : Context U
  isAlive : Bool := true
  /-- History: what the thread has written. -/
  wrote : Set (Fact U) := ∅

/-- The threads in the order of their starts. -/
structure State (U : Type) where
  threads : List (Thread U)

inductive Action (U : Type) where
  /-- The thread `i` starts one that gets the identifier `tid`. -/
  | start (i : Nat) (tid : ThreadId)
  | exit (i : Nat)
  | write (i : Nat) (l : LocalId) (key : String) (v : l.Attr U)
  | delete (i : Nat) (l : LocalId) (key : String)

section

variable {U : Type}

/-- The main thread, with an empty context. -/
def State.init (tid : ThreadId) : State U := ⟨[⟨tid, ∅, true, ∅⟩]⟩

/-- The thread `i`, while it is alive. -/
def State.alive (s : State U) (i : Nat) : Option (Thread U) := s.threads[i]?.filter (·.isAlive)

def State.setThread (s : State U) (i : Nat) (x : Thread U) : State U := ⟨s.threads.set i x⟩

/-- No thread that is alive has the identifier. -/
def State.isFree (s : State U) (tid : ThreadId) : Bool := s.threads.all fun x => !x.isAlive || x.ident ≠ tid

def step (s : State U) : Action U → Option (State U)
  | .start i tid => do
    let x ← s.alive i
    if s.isFree tid then some ⟨s.threads ++ [{ ident := tid, ctx := x.ctx }]⟩ else none
  | .exit i => do
    let x ← s.alive i
    some (s.setThread i { x with isAlive := false })
  | .write i l key v => do
    let x ← s.alive i
    if usable key then
      some (s.setThread i { x with ctx := x.ctx.setattr x.ident l key v, wrote := insert ⟨l, key, v⟩ x.wrote })
    else none
  | .delete i l key => do
    let x ← s.alive i
    if usable key then
      match x.ctx.delattr x.ident l key with
      | .ok c => some (s.setThread i { x with ctx := c })
      | .error _ => some s
    else none

def machine : Machine (State U) (Action U) := ⟨step⟩

/-- Whatever a thread that is alive can read, it has written. -/
def ReadsOwn (s : State U) : Prop :=
  ∀ x ∈ s.threads, x.isAlive = true → ∀ l key v, x.ctx.Visible x.ident l key v → ⟨l, key, v⟩ ∈ x.wrote

/-- A new thread inherits no data whose owner had its identifier. -/
def Fresh (s : State U) : Action U → Prop
  | .start i tid => ∀ x, s.alive i = some x → ∀ l key v, ¬ x.ctx.Visible tid l key v
  | _ => True

/-! ### Steps -/

variable {s s' : State U} {i : Nat} {x : Thread U}

theorem alive_eq_some : s.alive i = some x ↔ s.threads[i]? = some x ∧ x.isAlive = true := Option.filter_eq_some_iff

theorem ReadsOwn.of_alive (h : ReadsOwn s) (hx : s.alive i = some x) {l : LocalId} {key : String} {v : l.Attr U}
    (hv : x.ctx.Visible x.ident l key v) : (⟨l, key, v⟩ : Fact U) ∈ x.wrote :=
  h x (List.mem_of_getElem? (alive_eq_some.1 hx).1) (alive_eq_some.1 hx).2 l key v hv

/-- One thread changes. -/
theorem ReadsOwn.setThread (h : ReadsOwn s) (hx : x.isAlive = true → ∀ l key v, x.ctx.Visible x.ident l key v →
    ⟨l, key, v⟩ ∈ x.wrote) : ReadsOwn (s.setThread i x) := by
  intro y hy
  obtain hy | rfl := List.mem_or_eq_of_mem_set hy
  · exact h y hy
  · exact hx

theorem readsOwn_write (h : ReadsOwn s) (hx : s.alive i = some x) (l : LocalId) (key : String) (v : l.Attr U) :
    ReadsOwn (s.setThread i { x with ctx := x.ctx.setattr x.ident l key v, wrote := insert ⟨l, key, v⟩ x.wrote }) := by
  refine h.setThread fun _ m k w hw => ?_
  obtain ⟨rfl, hd⟩ | ⟨-, hold⟩ := Context.visible_setData hw
  · by_cases hk : k = key
    · subst hk
      rw [Function.update_self] at hd
      cases hd
      exact Set.mem_insert ..
    · rw [Function.update_of_ne hk] at hd
      exact Set.mem_insert_of_mem _ (h.of_alive hx (Context.visible_iff_storage.2 hd))
  · exact Set.mem_insert_of_mem _ (h.of_alive hx hold)

theorem readsOwn_delete (h : ReadsOwn s) (hx : s.alive i = some x) {l : LocalId} {key : String} {c : Context U}
    (hc : x.ctx.delattr x.ident l key = .ok c) : ReadsOwn (s.setThread i { x with ctx := c }) := by
  obtain ⟨-, rfl⟩ := Context.delattr_eq_ok.1 hc
  refine h.setThread fun _ m k w hw => ?_
  obtain ⟨rfl, hd⟩ | ⟨-, hold⟩ := Context.visible_setData hw
  · by_cases hk : k = key
    · subst hk
      rw [Function.update_self] at hd
      cases hd
    · rw [Function.update_of_ne hk] at hd
      exact h.of_alive hx (Context.visible_iff_storage.2 hd)
  · exact h.of_alive hx hold

/-- **A step that keeps the condition.** -/
theorem readsOwn_step {a : Action U} (h : ReadsOwn s) (hfresh : Fresh s a) (hs : machine.step s a = some s') :
    ReadsOwn s' := by
  cases a with
  | start i tid =>
    simp only [machine, step, Option.bind_eq_bind, Option.bind_eq_some_iff, Option.ite_none_right_eq_some,
      Option.some.injEq] at hs
    obtain ⟨x, hx, -, rfl⟩ := hs
    intro y hy hal l key v hv
    obtain hy | hy := List.mem_append.1 hy
    · exact h y hy hal l key v hv
    · cases List.mem_singleton.1 hy
      exact absurd hv (hfresh x hx l key v)
  | exit i =>
    simp only [machine, step, Option.bind_eq_bind, Option.bind_eq_some_iff, Option.some.injEq] at hs
    obtain ⟨x, -, rfl⟩ := hs
    exact h.setThread (by simp)
  | write i l key v =>
    simp only [machine, step, Option.bind_eq_bind, Option.bind_eq_some_iff, Option.ite_none_right_eq_some,
      Option.some.injEq] at hs
    obtain ⟨x, hx, -, rfl⟩ := hs
    exact readsOwn_write h hx l key v
  | delete i l key =>
    simp only [machine, step, Option.bind_eq_bind, Option.bind_eq_some_iff, Option.ite_none_right_eq_some] at hs
    obtain ⟨x, hx, -, hs⟩ := hs
    split at hs <;> cases hs
    · exact readsOwn_delete h hx ‹_›
    · exact h

/-- **A step that breaks the condition**: the new thread reads what another one has written. -/
theorem not_readsOwn_step {a : Action U} (hfresh : ¬ Fresh s a) (hs : machine.step s a = some s') : ¬ ReadsOwn s' := by
  cases a with
  | start i tid =>
    simp only [machine, step, Option.bind_eq_bind, Option.bind_eq_some_iff, Option.ite_none_right_eq_some,
      Option.some.injEq] at hs
    obtain ⟨x, hx, -, rfl⟩ := hs
    intro h
    refine hfresh fun y hy l key v hv => ?_
    cases hx.symm.trans hy
    exact h { ident := tid, ctx := x.ctx } (by simp) rfl l key v hv
  | exit => exact absurd trivial hfresh
  | write => exact absurd trivial hfresh
  | delete => exact absurd trivial hfresh

theorem readsOwn_init (tid : ThreadId) : ReadsOwn (State.init tid : State U) := by
  intro x hx _ l key v hv
  cases List.mem_singleton.1 hx
  obtain ⟨st, hst, -⟩ := Context.visible_iff.1 hv
  cases hst

/-- **Inherited data stays hidden in exactly the runs** in which no thread is started with the identifier of the owner of
data that it inherits. -/
theorem readsOwn_iff {tid : ThreadId} {as : List (Action U)} (hrun : machine.run (State.init tid) as = some s) :
    machine.Along (fun _ _ s' => ReadsOwn s') (State.init tid) as ↔ machine.Meets Fresh (State.init tid) as :=
  machine.along_iff_meets (K := ReadsOwn) (fun _ _ _ h hf hs => ⟨readsOwn_step h hf hs, readsOwn_step h hf hs⟩)
    (fun _ _ _ _ hf hs => not_readsOwn_step hf hs) (readsOwn_init tid) hrun

end

/-- Thread 1 writes an attribute and starts thread 2, which starts another one when thread 1 has ended. -/
def chain (tid : ThreadId) : List (Action Nat) :=
  [.start 0 1, .write 1 (.user 0) "a" 7, .start 1 2, .exit 1, .start 2 tid]

theorem meets_chain : machine.Meets Fresh (State.init 0) (chain 3) := by
  have hempty : ∀ (tid : ThreadId) (l : LocalId) (key : String) (v : l.Attr Nat), ¬ Context.Visible ∅ tid l key v := by
    intro tid l key v hv
    obtain ⟨st, hst, -⟩ := Context.visible_iff.1 hv
    cases hst
  have hone : ∀ tid : ThreadId, tid ≠ 1 → ∀ (l : LocalId) (key : String) (v : l.Attr Nat),
      ¬ (Context.setattr ∅ 1 (.user 0) "a" 7 : Context Nat).Visible tid l key v := by
    intro tid htid l key v hv
    obtain ⟨st, hst, ht, -⟩ := Context.visible_iff.1 hv
    by_cases hl : l = .user 0
    · subst hl
      cases hst
      exact htid ht.symm
    · rw [Context.setattr, Context.data_setData_ne _ _ hl] at hst
      cases hst
  refine ⟨fun x hx => ?_, fun s hs => ?_⟩
  · cases hx
    exact hempty 1
  cases hs
  refine ⟨trivial, fun s hs => ?_⟩
  cases hs
  refine ⟨fun x hx => ?_, fun s hs => ?_⟩
  · cases hx
    exact hone 2 (by decide)
  cases hs
  refine ⟨trivial, fun s hs => ?_⟩
  cases hs
  refine ⟨fun x hx => ?_, fun _ _ => trivial⟩
  cases hx
  exact hone 3 (by decide)

theorem readsOwn_chain : ∃ s, machine.run (State.init 0) (chain 3) = some s ∧
    machine.Along (fun _ _ s' => ReadsOwn s') (State.init 0) (chain 3) :=
  ⟨_, rfl, (@readsOwn_iff Nat _ 0 (chain 3) rfl).2 meets_chain⟩

/-- **A thread with the identifier of thread 1** reads what thread 1 has written, and has itself written nothing. -/
theorem recycled_shown : ∃ s x, machine.run (State.init 0) (chain 1) = some s ∧ s.alive 3 = some x ∧
    x.ctx.Visible x.ident (.user 0) "a" 7 ∧ x.wrote = ∅ := ⟨_, _, rfl, rfl, rfl, rfl⟩

end Asgiref.Local.Recycled
