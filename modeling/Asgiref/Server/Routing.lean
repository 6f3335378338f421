import Asgiref.Lib.Fifo
import Asgiref.Server.LeastRecentlyUsed

/-!
# What goes through the input queues, and what is sent

The server with the contents of its queues and with what the applications were called with.  An instance, its task
and its queue have one number.

* `Routed`, `routed` — the server, those who put messages into its queues, and the applications, in all orders;
* `Wired` — the table against the tasks, the queues and the scopes, `wired_run`;
* `puts_eq` — every queue is first in, first out;
* `received_for_scope` — no message goes to the instance of another `scope_id`;
* `post_order` — a `scope_id` never goes back to an earlier instance;
* `send_scope` — the scope that `application_send` is called with.
-/

namespace Asgiref.Server

open Asgiref.Lib Asgiref.Python

variable {K Scope Time M : Type}

structure Routed (K Scope Time M : Type) where
  server : State K Scope Time
  /-- what is in `input_queue` of the instance -/
  queues : Nat → List M
  /-- the `scope` that the application of the instance was called with, and that its `send` passes on -/
  scopes : Nat → Option Scope

def Routed.init (maxApplications : Int) : Routed K Scope Time M :=
  ⟨State.init maxApplications, fun _ => [], fun _ => none⟩

inductive RoutedAction (K Scope Time M : Type) where
  | server (a : Action K Scope Time)
  /-- `get_or_create_application_instance(scope_id, scope).put_nowait(message)` -/
  | post (scopeId : K) (scope : Scope) (now : Time) (app : Option Exn) (message : M)
  /-- `put_nowait(message)` by somebody who has kept the queue of the instance -/
  | putNowait (n : Nat) (message : M)
  /-- the application of the instance receives what is first in its queue -/
  | receive (n : Nat)
  /-- the application of the instance calls `send` -/
  | send (n : Nat) (message : M)

def Routed.put (x : Routed K Scope Time M) (n : Nat) (message : M) : Routed K Scope Time M :=
  { x with queues := Function.update x.queues n (x.queues n ++ [message]) }

/-! ### Tasks and their `scope_id`s -/

theorem scopeIds_cancel (s : State K Scope Time) (n : Nat) :
    (s.cancel n).tasks.map (·.scopeId) = s.tasks.map (·.scopeId) := by
  refine List.ext_getElem? fun m => ?_
  rw [List.getElem?_map, List.getElem?_map, State.tasks_cancel, Option.map_map]
  congr 1
  funext t
  dsimp only [Function.comp]
  split <;> rfl

theorem scopeIds_finish {s s' : State K Scope Time} {n : Nat} {o : Outcome} (h : s.finish n o = some s') :
    s'.tasks.map (·.scopeId) = s.tasks.map (·.scopeId) := by
  obtain ⟨t, ht, -, rfl⟩ := State.finish_eq_some.1 h
  refine List.ext_getElem? fun m => ?_
  by_cases hm : n = m
  · subst hm
    obtain ⟨hlt, hget⟩ := List.getElem?_eq_some_iff.1 ht
    simp [hlt, hget]
  · simp [List.getElem?_set_ne hm]

section

variable [DecidableEq K] [LinearOrder Time]

/-- The call, with the scope that a new application is called with. -/
def Routed.getOrCreate (x : Routed K Scope Time M) (scopeId : K) (scope : Scope) (now : Time) (app : Option Exn) :
    Routed K Scope Time M × Result Nat :=
  let p := x.server.getOrCreateApplicationInstance scopeId scope now app
  let new := x.server.tasks.length
  ({ x with
      server := p.1
      scopes := if new < p.1.tasks.length then Function.update x.scopes new (some scope) else x.scopes }, p.2)

def Routed.step (x : Routed K Scope Time M) : RoutedAction K Scope Time M → Option (Routed K Scope Time M)
  | .server (.getOrCreate scopeId scope now app) => some (x.getOrCreate scopeId scope now app).1
  | .server a => (Server.step x.server a).map fun s => { x with server := s }
  | .post scopeId scope now app message =>
    match x.getOrCreate scopeId scope now app with
    | (x', .ok n) => some (x'.put n message)
    | (x', .error _) => some x'
  | .putNowait n message => if n < x.server.tasks.length then some (x.put n message) else none
  | .receive n =>
    match x.queues n with
    | _ :: rest => some { x with queues := Function.update x.queues n rest }
    | [] => none
  | .send n _ => if n < x.server.tasks.length then some x else none

def routed : Machine (Routed K Scope Time M) (RoutedAction K Scope Time M) := ⟨Routed.step⟩

/-- What happens to the queues. -/
def Routed.visible (x : Routed K Scope Time M) : RoutedAction K Scope Time M → Option (ChannelEvent Nat M)
  | .post scopeId scope now app message =>
    match (x.getOrCreate scopeId scope now app).2 with
    | .ok n => some (.put n message)
    | .error _ => none
  | .putNowait n message => some (.put n message)
  | .receive n => (x.queues n).head?.map (.get n)
  | .server _ | .send _ _ => none

/-- The call of `application_send` that is made for a `send`. -/
def Routed.applicationSend (x : Routed K Scope Time M) : RoutedAction K Scope Time M → Option (Scope × M)
  | .send n message => (x.scopes n).map (·, message)
  | _ => none

end

theorem fifoStep_put (x : Routed K Scope Time M) (n : Nat) (message : M) :
    FifoStep x.queues (some (.put n message)) (x.put n message).queues :=
  .put (Function.update_self ..) fun _ hj => Function.update_of_ne hj ..

variable [DecidableEq K]

/-! ### The invariant -/

structure Wired (x : Routed K Scope Time M) : Prop where
  /-- An entry has the number of its task, which is for its `scope_id`, and the scope its application has. -/
  entry : ∀ k d, x.server.instances.lookup k = some d → d.inputQueue = d.future ∧
    (x.server.tasks.map (·.scopeId))[d.future]? = some k ∧ x.scopes d.future = some d.scope
  hasScope : ∀ n, x.scopes n ≠ none ↔ n < x.server.tasks.length
  fresh : ∀ n, x.server.tasks.length ≤ n → x.queues n = []

theorem wired_init (maxApplications : Int) : Wired (Routed.init maxApplications : Routed K Scope Time M) where
  entry k d hd := by simp [Routed.init, State.init] at hd
  hasScope n := by simp [Routed.init, State.init]
  fresh _ _ := rfl

/-- A step of the server that makes no instance. -/
theorem Wired.within {x : Routed K Scope Time M} (h : Wired x) {s : State K Scope Time} (hw : s.Within x.server)
    (hids : s.tasks.map (·.scopeId) = x.server.tasks.map (·.scopeId)) : Wired { x with server := s } := by
  have hlen : s.tasks.length = x.server.tasks.length := by simpa using congrArg List.length hids
  refine ⟨fun k d hd => ?_, fun n => ?_, fun n hn => ?_⟩
  · dsimp only
    rw [hids]
    exact h.entry k d (hw k d hd)
  · dsimp only
    rw [hlen]
    exact h.hasScope n
  · exact h.fresh n (hlen ▸ hn)

/-- A step on the queues of instances. -/
theorem Wired.setQueues {x : Routed K Scope Time M} (h : Wired x) {q : Nat → List M}
    (hq : ∀ n, x.server.tasks.length ≤ n → q n = x.queues n) : Wired { x with queues := q } where
  entry := h.entry
  hasScope := h.hasScope
  fresh n hn := (hq n hn).trans (h.fresh n hn)

theorem Wired.put {x : Routed K Scope Time M} (h : Wired x) {n : Nat} (hn : n < x.server.tasks.length) (message : M) :
    Wired (x.put n message) :=
  h.setQueues fun m hm => Function.update_of_ne (by omega) ..

variable [LinearOrder Time]

/-! ### What a call makes of the server -/

/-- A call gives the queue of the entry, or evicts entries and makes a new one, or raises. -/
theorem getOrCreate_cases (s : State K Scope Time) (k : K) (scope : Scope) (now : Time) (app : Option Exn) :
    (∃ d, s.instances.lookup k = some d ∧ s.getOrCreateApplicationInstance k scope now app =
      ({ s with instances := s.instances.set k { d with lastUsed := now } }, .ok d.inputQueue)) ∨
    s.instances.lookup k = none ∧ ∃ t : State K Scope Time, t.Within s ∧
      t.tasks.map (·.scopeId) = s.tasks.map (·.scopeId) ∧
      ((∃ e, s.getOrCreateApplicationInstance k scope now app = (t, .error e)) ∨
        s.getOrCreateApplicationInstance k scope now app =
          ({ t with
              tasks := t.tasks ++ [{ scopeId := k, outcome := none, cancelled := false }]
              instances := t.instances.set k
                { inputQueue := s.tasks.length, future := s.tasks.length, scope, lastUsed := now } },
            .ok s.tasks.length)) := by
  cases hk : s.instances.lookup k with
  | some d => exact .inl ⟨d, rfl, by simp only [State.getOrCreateApplicationInstance, hk]⟩
  | none =>
    obtain ⟨hwithin, hids⟩ := State.makeRoom_induction
      (I := fun t => t.Within s ∧ t.tasks.map (·.scopeId) = s.tasks.map (·.scopeId))
      (fun t k₀ d ht _ _ => ⟨fun k₁ d₁ h₁ => ht.1 k₁ d₁ (within_evict t k₀ d.future k₁ d₁ h₁),
        (scopeIds_cancel _ _).trans ht.2⟩)
      (s.instances.length + 1) ⟨fun _ _ hd => hd, rfl⟩
    refine .inr ⟨rfl, (s.makeRoom (s.instances.length + 1)).1, hwithin, hids, ?_⟩
    have hlen : (s.makeRoom (s.instances.length + 1)).1.tasks.length = s.tasks.length := by
      simpa using congrArg List.length hids
    simp only [State.getOrCreateApplicationInstance, hk]
    rcases hr : s.makeRoom (s.instances.length + 1) with ⟨t, e | _⟩
    · exact .inl ⟨e, rfl⟩
    · rw [hr] at hlen
      cases app with
      | some e => exact .inl ⟨e, rfl⟩
      | none => exact .inr (by rw [← hlen])

/-- The other steps leave every task with its `scope_id`. -/
theorem scopeIds_of_step {s s' : State K Scope Time} {a : Action K Scope Time} (hs : step s a = some s')
    (ha : ∀ k scope now app, a ≠ .getOrCreate k scope now app) :
    s'.tasks.map (·.scopeId) = s.tasks.map (·.scopeId) := by
  cases a with
  | getOrCreate k scope now app => exact absurd rfl (ha k scope now app)
  | delete k =>
    cases hs
    cases hk : s.instances.lookup k with
    | none => rw [State.deleteApplicationInstance_of_none hk]
    | some d =>
      rw [State.deleteApplicationInstance_of_lookup hk]
      exact scopeIds_cancel _ _
  | deleteOldest =>
    cases hs
    obtain ⟨-, hs, -⟩ | ⟨k, d, -, hs⟩ := s.deleteOldestApplicationInstance_cases
    · rw [hs]
    · rw [hs]
      exact scopeIds_cancel _ _
  | finish n o => exact scopeIds_finish hs
  | cancel n =>
    cases hs
    exact scopeIds_cancel _ _
  | startChecker =>
    cases hs
    rfl
  | wake | handled =>
    obtain ⟨i, c, rfl, -⟩ := step_of_checker hs trivial
    exact congrArg _ (State.tasks_removeAll ..)
  | cancelChecker i =>
    simp only [step] at hs
    split at hs
    · cases hs
      rfl
    · cases hs
      rfl
    · cases hs

/-- **A call** keeps the wiring, and gives the queue of a task for its `scope_id`. -/
theorem Wired.getOrCreate {x : Routed K Scope Time M} (h : Wired x) (k : K) (scope : Scope) (now : Time)
    (app : Option Exn) : Wired (x.getOrCreate k scope now app).1 ∧ ∀ n, (x.getOrCreate k scope now app).2 = .ok n →
      ∃ d, (x.getOrCreate k scope now app).1.server.instances.lookup k = some d ∧ d.inputQueue = n := by
  unfold Routed.getOrCreate
  obtain ⟨d, hd, hcall⟩ | ⟨hk, t, hw, hids, ⟨e, hcall⟩ | hcall⟩ := getOrCreate_cases x.server k scope now app
  · rw [hcall]
    refine ⟨⟨fun k' d' hd' => ?_, fun n => ?_, h.fresh⟩, fun n hn => ?_⟩
    · dsimp only at hd' ⊢
      rw [if_neg (Nat.lt_irrefl _)]
      by_cases hkk : k' = k
      · subst hkk
        rw [Dict.lookup_set_self] at hd'
        cases hd'
        exact h.entry k' d hd
      · rw [Dict.lookup_set_ne hkk] at hd'
        exact h.entry k' d' hd'
    · dsimp only
      rw [if_neg (Nat.lt_irrefl _)]
      exact h.hasScope n
    · cases hn
      exact ⟨_, Dict.lookup_set_self .., rfl⟩
  · have hlen : t.tasks.length = x.server.tasks.length := by simpa using congrArg List.length hids
    rw [hcall]
    dsimp only
    rw [hlen, if_neg (Nat.lt_irrefl _)]
    exact ⟨h.within hw hids, nofun⟩
  · have hlen : t.tasks.length = x.server.tasks.length := by simpa using congrArg List.length hids
    rw [hcall]
    dsimp only
    rw [List.length_append, List.length_singleton, hlen, if_pos (Nat.lt_succ_self _)]
    refine ⟨⟨fun k' d' hd' => ?_, fun n => ?_, fun n hn => ?_⟩, fun n hn => ?_⟩
    · dsimp only at hd' ⊢
      rw [List.map_append, hids]
      by_cases hkk : k' = k
      · subst hkk
        rw [Dict.lookup_set_self] at hd'
        cases hd'
        exact ⟨rfl, by simp, Function.update_self ..⟩
      · rw [Dict.lookup_set_ne hkk] at hd'
        obtain ⟨hq, htask, hscope⟩ := h.entry k' d' (hw k' d' hd')
        have hlt : d'.future < x.server.tasks.length := by
          simpa using (List.getElem?_eq_some_iff.1 htask).1
        refine ⟨hq, ?_, ?_⟩
        · rw [List.getElem?_append_left (by simpa using hlt)]
          exact htask
        · rw [Function.update_of_ne (by omega)]
          exact hscope
    · dsimp only
      rw [List.length_append, List.length_singleton, hlen]
      by_cases hn : n = x.server.tasks.length
      · subst hn
        simp
      · rw [Function.update_of_ne hn, h.hasScope n]
        omega
    · dsimp only at hn
      rw [List.length_append, List.length_singleton, hlen] at hn
      exact h.fresh n (by omega)
    · cases hn
      exact ⟨_, Dict.lookup_set_self .., rfl⟩

/-- The queue that a call gives is that of a task. -/
theorem lt_of_getOrCreate {x : Routed K Scope Time M} (h : Wired x) {k : K} {scope : Scope} {now : Time}
    {app : Option Exn} {n : Nat} (hn : (x.getOrCreate k scope now app).2 = .ok n) :
    n < (x.getOrCreate k scope now app).1.server.tasks.length ∧
      ((x.getOrCreate k scope now app).1.server.tasks.map (·.scopeId))[n]? = some k := by
  obtain ⟨hw, hentry⟩ := h.getOrCreate k scope now app
  obtain ⟨d, hd, rfl⟩ := hentry n hn
  obtain ⟨hq, htask, -⟩ := hw.entry k d hd
  rw [hq]
  exact ⟨by simpa using (List.getElem?_eq_some_iff.1 htask).1, htask⟩

/-- A step of the server, apart from the queues. -/
theorem server_cases {x x' : Routed K Scope Time M} {b : Action K Scope Time}
    (h : routed.step x (.server b) = some x') :
    (∃ k scope now app, b = .getOrCreate k scope now app ∧ x' = (x.getOrCreate k scope now app).1) ∨
      (∀ k scope now app, b ≠ .getOrCreate k scope now app) ∧
        ∃ s, Server.step x.server b = some s ∧ x' = { x with server := s } := by
  cases b with
  | getOrCreate k scope now app =>
    cases h
    exact .inl ⟨k, scope, now, app, rfl, rfl⟩
  | _ =>
    simp only [routed, Routed.step, Option.map_eq_some_iff] at h
    obtain ⟨s, hs, rfl⟩ := h
    exact .inr ⟨fun _ _ _ _ => nofun, s, hs, rfl⟩

theorem wired_step {x x' : Routed K Scope Time M} {a : RoutedAction K Scope Time M} (h : Wired x)
    (hstep : routed.step x a = some x') : Wired x' := by
  cases a with
  | server b =>
    obtain ⟨k, scope, now, app, -, rfl⟩ | ⟨hb, s, hs, rfl⟩ := server_cases hstep
    · exact (h.getOrCreate k scope now app).1
    · exact h.within (within_of_step hs hb) (scopeIds_of_step hs hb)
  | post k scope now app message =>
    have hcall := h.getOrCreate k scope now app
    have hlt (n : Nat) (hn : (x.getOrCreate k scope now app).2 = .ok n) := (lt_of_getOrCreate h hn).1
    simp only [routed, Routed.step] at hstep
    rcases hp : x.getOrCreate k scope now app with ⟨y, e | n⟩ <;> rw [hp] at hstep hcall hlt <;> cases hstep
    · exact hcall.1
    · exact hcall.1.put (hlt n rfl) message
  | putNowait n message =>
    obtain ⟨hn, heq⟩ := Option.ite_none_right_eq_some.1 hstep
    cases heq
    exact h.put hn message
  | receive n =>
    simp only [routed, Routed.step] at hstep
    split at hstep
    · next m rest hq =>
      cases hstep
      refine h.setQueues fun i hi => Function.update_of_ne ?_ ..
      rintro rfl
      rw [h.fresh i hi] at hq
      cases hq
    · cases hstep
  | send n message =>
    obtain ⟨-, heq⟩ := Option.ite_none_right_eq_some.1 hstep
    cases heq
    exact h

theorem wired_run {maxApplications : Int} {x : Routed K Scope Time M} {as : List (RoutedAction K Scope Time M)}
    (hrun : routed.run (Routed.init maxApplications) as = some x) : Wired x :=
  routed.run_invariant (fun _ _ _ h hs => wired_step h hs) (wired_init maxApplications) hrun

/-! ### The queues -/

theorem fifoStep_routed {x x' : Routed K Scope Time M} {a : RoutedAction K Scope Time M}
    (hstep : routed.step x a = some x') : FifoStep x.queues (x.visible a) x'.queues := by
  cases a with
  | server b =>
    obtain ⟨k, scope, now, app, -, rfl⟩ | ⟨-, s, -, rfl⟩ := server_cases hstep <;> rfl
  | post k scope now app message =>
    simp only [routed, Routed.step] at hstep
    have hqueues : (x.getOrCreate k scope now app).1.queues = x.queues := rfl
    simp only [Routed.visible]
    rcases hp : x.getOrCreate k scope now app with ⟨y, e | n⟩ <;> rw [hp] at hstep hqueues <;> cases hstep
    · exact hqueues
    · rw [← hqueues]
      exact fifoStep_put y n message
  | putNowait n message =>
    obtain ⟨-, heq⟩ := Option.ite_none_right_eq_some.1 hstep
    cases heq
    exact fifoStep_put x n message
  | receive n =>
    simp only [routed, Routed.step] at hstep
    split at hstep
    · next m rest hq =>
      cases hstep
      simp only [Routed.visible, hq, List.head?_cons, Option.map_some]
      exact .get (by rw [Function.update_self, hq]) fun _ hj => Function.update_of_ne hj ..
    · cases hstep
  | send n message =>
    obtain ⟨-, heq⟩ := Option.ite_none_right_eq_some.1 hstep
    cases heq
    rfl

theorem puts_eq {maxApplications : Int} {x : Routed K Scope Time M} {as : List (RoutedAction K Scope Time M)}
    (hrun : routed.run (Routed.init maxApplications) as = some x) (n : Nat) :
    puts n (routed.trace Routed.visible (Routed.init maxApplications) as) =
      gets n (routed.trace Routed.visible (Routed.init maxApplications) as) ++ x.queues n :=
  fifo_of_simulates routed Routed.queues Routed.visible (fun _ _ _ hs => fifoStep_routed hs) hrun n

/-! ### Where a message goes -/

/-- The `scope_id` the instance was made for. -/
def Routed.scopeId (x : Routed K Scope Time M) (n : Nat) : Option K := (x.server.tasks.map (·.scopeId))[n]?

/-- An instance is for one `scope_id` for ever. -/
theorem scopeId_getOrCreate {x : Routed K Scope Time M} {k : K} {scope : Scope} {now : Time} {app : Option Exn}
    {n : Nat} {k' : K} (h : x.scopeId n = some k') : (x.getOrCreate k scope now app).1.scopeId n = some k' := by
  unfold Routed.scopeId Routed.getOrCreate at *
  obtain ⟨d, -, hcall⟩ | ⟨-, t, -, hids, ⟨e, hcall⟩ | hcall⟩ := getOrCreate_cases x.server k scope now app <;> rw [hcall]
  · exact h
  · dsimp only
    rw [hids]
    exact h
  · dsimp only
    rw [List.map_append, hids, List.getElem?_append_left (List.getElem?_eq_some_iff.1 h).1]
    exact h

theorem scopeId_step {x x' : Routed K Scope Time M} {a : RoutedAction K Scope Time M} {n : Nat} {k : K}
    (h : x.scopeId n = some k) (hstep : routed.step x a = some x') : x'.scopeId n = some k := by
  cases a with
  | server b =>
    obtain ⟨k', scope, now, app, -, rfl⟩ | ⟨hb, s, hs, rfl⟩ := server_cases hstep
    · exact scopeId_getOrCreate h
    · unfold Routed.scopeId at *
      dsimp only
      rw [scopeIds_of_step hs hb]
      exact h
  | post k' scope now app message =>
    have hcall : (x.getOrCreate k' scope now app).1.scopeId n = some k := scopeId_getOrCreate h
    simp only [routed, Routed.step] at hstep
    rcases hp : x.getOrCreate k' scope now app with ⟨y, e | i⟩ <;> rw [hp] at hstep hcall <;> cases hstep
    · exact hcall
    · exact hcall
  | putNowait i message =>
    obtain ⟨-, heq⟩ := Option.ite_none_right_eq_some.1 hstep
    cases heq
    exact h
  | receive i =>
    simp only [routed, Routed.step] at hstep
    split at hstep <;> cases hstep
    exact h
  | send i message =>
    obtain ⟨-, heq⟩ := Option.ite_none_right_eq_some.1 hstep
    cases heq
    exact h

theorem scopeId_run {x x' : Routed K Scope Time M} {as : List (RoutedAction K Scope Time M)} {n : Nat} {k : K}
    (h : x.scopeId n = some k) (hrun : routed.run x as = some x') : x'.scopeId n = some k :=
  routed.run_invariant (I := fun y => y.scopeId n = some k) (fun _ _ _ hy hs => scopeId_step hy hs) h hrun

/-- `get_or_create_application_instance(k, …).put_nowait(message)` finds or makes the instance. -/
def PostFor (n : Nat) (k : K) (message : M) (x : Routed K Scope Time M) (a : RoutedAction K Scope Time M) : Prop :=
  ∃ scope now app, a = .post k scope now app message ∧ (x.getOrCreate k scope now app).2 = .ok n

theorem scopeId_of_postFor {x x' : Routed K Scope Time M} {a : RoutedAction K Scope Time M} {n : Nat} {k : K}
    {message : M} (h : Wired x) (hpost : PostFor n k message x a) (hstep : routed.step x a = some x') :
    x'.scopeId n = some k := by
  obtain ⟨scope, now, app, rfl, hn⟩ := hpost
  have hid := (lt_of_getOrCreate h hn).2
  simp only [routed, Routed.step] at hstep
  rcases hp : x.getOrCreate k scope now app with ⟨y, e | i⟩
  · rw [hp] at hn
    cases hn
  · rw [hp] at hstep hid
    cases hstep
    exact hid

/-- All that calls put into one queue is for one `scope_id`. -/
theorem scopeId_of_happened {maxApplications : Int} {x : Routed K Scope Time M}
    {as : List (RoutedAction K Scope Time M)} (hrun : routed.run (Routed.init maxApplications) as = some x) {n : Nat}
    {k : K} {message : M} (h : routed.Happened (Routed.init maxApplications) (PostFor n k message) as) :
    x.scopeId n = some k := by
  obtain ⟨as₁, a, as₂, y, rfl, hy, hpost⟩ := h
  rw [routed.run_append hy] at hrun
  obtain ⟨z, hz, hrest⟩ := routed.run_cons_eq_some.1 hrun
  exact scopeId_run (scopeId_of_postFor (wired_run hy) hpost hz) hrest

theorem post_or_putNowait {x : Routed K Scope Time M} {a : RoutedAction K Scope Time M} {n : Nat} {message : M}
    (hv : x.visible a = some (.put n message)) : (∃ k, PostFor n k message x a) ∨ a = .putNowait n message := by
  cases a with
  | post k scope now app m =>
    simp only [Routed.visible] at hv
    split at hv
    · next i hi =>
      cases hv
      exact .inl ⟨k, scope, now, app, rfl, hi⟩
    · cases hv
  | putNowait i m =>
    cases hv
    exact .inr rfl
  | receive i =>
    obtain ⟨y, -, hy⟩ := Option.map_eq_some_iff.1 hv
    cases hy
  | server | send => cases hv

/-- An instance that something is put into the queue of was made. -/
theorem exists_scopeId_of_put {x x' : Routed K Scope Time M} {a : RoutedAction K Scope Time M} {n : Nat} {message : M}
    (h : Wired x) (hv : x.visible a = some (.put n message)) (hstep : routed.step x a = some x') :
    ∃ k, x'.scopeId n = some k := by
  have hlt : n < x'.server.tasks.length := by
    by_contra hge
    have hq := (wired_step h hstep).fresh n (Nat.not_lt.1 hge)
    have hfifo := fifoStep_routed hstep
    rw [hv] at hfifo
    cases hfifo with
    | put hput => simp [hq] at hput
  exact ⟨_, List.getElem?_eq_getElem (by simpa using hlt)⟩

/-- **No message crosses.**  In every run an instance is for one `scope_id`.  What it has received was put into its queue
by `get_or_create_application_instance(scope_id, …).put_nowait(…)` for this `scope_id` or by somebody who has kept the
queue, and no such call for another `scope_id` has put anything there. -/
theorem received_for_scope {maxApplications : Int} {x : Routed K Scope Time M}
    {as : List (RoutedAction K Scope Time M)} (hrun : routed.run (Routed.init maxApplications) as = some x) {n : Nat}
    {message : M} (hm : message ∈ gets n (routed.trace Routed.visible (Routed.init maxApplications) as)) :
    ∃ k, x.scopeId n = some k ∧
      (routed.Happened (Routed.init maxApplications) (PostFor n k message) as ∨
        routed.Happened (Routed.init maxApplications) (fun _ a => a = .putNowait n message) as) ∧
      ∀ k' m, routed.Happened (Routed.init maxApplications) (PostFor n k' m) as → k' = k := by
  have hputs : message ∈ puts n (routed.trace Routed.visible (Routed.init maxApplications) as) := by
    rw [puts_eq hrun n]
    exact List.mem_append_left _ hm
  obtain ⟨as₁, a, as₂, y, rfl, hy, hv⟩ := happened_of_mem_puts hputs
  have hend := hrun
  rw [routed.run_append hy] at hend
  obtain ⟨z, hz, hrest⟩ := routed.run_cons_eq_some.1 hend
  obtain ⟨k, hk⟩ := exists_scopeId_of_put (wired_run hy) hv hz
  have hkeep := scopeId_run hk hrest
  have honly (k' : K) (m : M) (h : routed.Happened (Routed.init maxApplications) (PostFor n k' m) (as₁ ++ a :: as₂)) :
      k' = k := Option.some.inj ((scopeId_of_happened hrun h).symm.trans hkeep)
  refine ⟨k, hkeep, ?_, honly⟩
  obtain ⟨k', hpost⟩ | rfl := post_or_putNowait hv
  · obtain rfl := honly k' message ⟨as₁, a, as₂, y, rfl, hy, hpost⟩
    exact .inl ⟨as₁, a, as₂, y, rfl, hy, hpost⟩
  · exact .inr ⟨as₁, _, as₂, y, rfl, hy, rfl⟩

/-- Two requests for one `scope_id` and one for another; the first application receives. -/
def requests : List (RoutedAction Nat Bool Nat Nat) :=
  [.post 7 true 0 none 1, .post 8 false 1 none 2, .post 7 false 2 none 3, .receive 0]

theorem received_requests : ∃ x, routed.run (Routed.init 10) requests = some x ∧ ∃ k, x.scopeId 0 = some k ∧
    ∀ k' m, routed.Happened (Routed.init 10) (PostFor 0 k' m) requests → k' = k := by
  obtain ⟨x, hrun⟩ : ∃ x, routed.run (Routed.init 10) requests = some x := ⟨_, rfl⟩
  have hreceived : 1 ∈ gets 0 (routed.trace Routed.visible (Routed.init 10) requests) := by decide
  obtain ⟨k, hk, -, honly⟩ := received_for_scope hrun hreceived
  exact ⟨x, hrun, k, hk, honly⟩

/-! ### The instances of one `scope_id` -/

/-- The instance was made, and the table has none for the `scope_id` that is older. -/
def NoneOlder (n : Nat) (k : K) (x : Routed K Scope Time M) : Prop :=
  n < x.server.tasks.length ∧ ∀ d, x.server.instances.lookup k = some d → n ≤ d.inputQueue

theorem noneOlder_getOrCreate {x : Routed K Scope Time M} {n : Nat} {k : K} (h : NoneOlder n k x) (k' : K)
    (scope : Scope) (now : Time) (app : Option Exn) : NoneOlder n k (x.getOrCreate k' scope now app).1 := by
  obtain ⟨hlt, hentry⟩ := h
  unfold NoneOlder Routed.getOrCreate
  obtain ⟨d, hd, hcall⟩ | ⟨-, t, hw, hids, ⟨e, hcall⟩ | hcall⟩ := getOrCreate_cases x.server k' scope now app <;>
    rw [hcall] <;> dsimp only
  · refine ⟨hlt, fun d' hd' => ?_⟩
    by_cases hk : k = k'
    · subst hk
      rw [Dict.lookup_set_self] at hd'
      cases hd'
      exact hentry d hd
    · rw [Dict.lookup_set_ne hk] at hd'
      exact hentry d' hd'
  · have hlen : t.tasks.length = x.server.tasks.length := by simpa using congrArg List.length hids
    exact ⟨hlen ▸ hlt, fun d' hd' => hentry d' (hw k d' hd')⟩
  · have hlen : t.tasks.length = x.server.tasks.length := by simpa using congrArg List.length hids
    refine ⟨by rw [List.length_append, hlen]; omega, fun d' hd' => ?_⟩
    by_cases hk : k = k'
    · subst hk
      rw [Dict.lookup_set_self] at hd'
      cases hd'
      exact Nat.le_of_lt hlt
    · rw [Dict.lookup_set_ne hk] at hd'
      exact hentry d' (hw k d' hd')

theorem noneOlder_step {x x' : Routed K Scope Time M} {a : RoutedAction K Scope Time M} {n : Nat} {k : K}
    (h : NoneOlder n k x) (hstep : routed.step x a = some x') : NoneOlder n k x' := by
  cases a with
  | server b =>
    obtain ⟨k', scope, now, app, -, rfl⟩ | ⟨hb, s, hs, rfl⟩ := server_cases hstep
    · exact noneOlder_getOrCreate h k' scope now app
    · have hlen : s.tasks.length = x.server.tasks.length := by
        simpa using congrArg List.length (scopeIds_of_step hs hb)
      exact ⟨hlen ▸ h.1, fun d hd => h.2 d (within_of_step hs hb k d hd)⟩
  | post k' scope now app message =>
    have hcall := noneOlder_getOrCreate h k' scope now app
    simp only [routed, Routed.step] at hstep
    rcases hp : x.getOrCreate k' scope now app with ⟨y, e | i⟩ <;> rw [hp] at hstep hcall <;> cases hstep
    · exact hcall
    · exact hcall
  | putNowait i message =>
    obtain ⟨-, heq⟩ := Option.ite_none_right_eq_some.1 hstep
    cases heq
    exact h
  | receive i =>
    simp only [routed, Routed.step] at hstep
    split at hstep <;> cases hstep
    exact h
  | send i message =>
    obtain ⟨-, heq⟩ := Option.ite_none_right_eq_some.1 hstep
    cases heq
    exact h

/-- The call has found or made the entry of the instance. -/
theorem lookup_of_postFor {x x' : Routed K Scope Time M} {a : RoutedAction K Scope Time M} {n : Nat} {k : K}
    {message : M} (h : Wired x) (hpost : PostFor n k message x a) (hstep : routed.step x a = some x') :
    ∃ d, x'.server.instances.lookup k = some d ∧ d.inputQueue = n := by
  obtain ⟨scope, now, app, rfl, hn⟩ := hpost
  have hentry := (h.getOrCreate k scope now app).2 n hn
  simp only [routed, Routed.step] at hstep
  rcases hp : x.getOrCreate k scope now app with ⟨y, e | i⟩
  · rw [hp] at hn
    cases hn
  · rw [hp] at hstep hentry
    cases hstep
    exact hentry

/-- The call gives the queue of the entry there is, or of an instance that is made now. -/
theorem postFor_cases {x : Routed K Scope Time M} {a : RoutedAction K Scope Time M} {n : Nat} {k : K} {message : M}
    (hpost : PostFor n k message x a) : (∃ d, x.server.instances.lookup k = some d ∧ d.inputQueue = n) ∨
      x.server.instances.lookup k = none ∧ n = x.server.tasks.length := by
  obtain ⟨scope, now, app, -, hn⟩ := hpost
  unfold Routed.getOrCreate at hn
  obtain ⟨d, hd, hcall⟩ | ⟨hk, t, -, -, ⟨e, hcall⟩ | hcall⟩ := getOrCreate_cases x.server k scope now app <;>
    rw [hcall] at hn <;> cases hn
  · exact .inl ⟨d, hd, rfl⟩
  · exact .inr ⟨hk, rfl⟩

/-- **A `scope_id` never goes back.**  Where two calls `get_or_create_application_instance(scope_id, …).put_nowait(…)` of
a run are for one `scope_id`, the later one puts its message into the queue of the same instance or of one that was made
later; and of another one only if no entry of the table has the first instance any more. -/
theorem post_order {maxApplications : Int} {y z w : Routed K Scope Time M} {as bs : List (RoutedAction K Scope Time M)}
    {a b : RoutedAction K Scope Time M} {n n' : Nat} {k : K} {message message' : M}
    (hrun : routed.run (Routed.init maxApplications) as = some y) (hpost : PostFor n k message y a)
    (hz : routed.step y a = some z) (hrest : routed.run z bs = some w) (hlater : PostFor n' k message' w b) :
    n ≤ n' ∧ (n' = n ∨ ∀ k' d, w.server.instances.lookup k' = some d → d.inputQueue ≠ n) := by
  have hy := wired_run hrun
  have hw : Wired w := routed.run_invariant (fun _ _ _ h hs => wired_step h hs) (wired_step hy hz) hrest
  have hid : w.scopeId n = some k := scopeId_run (scopeId_of_postFor hy hpost hz) hrest
  obtain ⟨d, hd, rfl⟩ := lookup_of_postFor hy hpost hz
  have hnone : NoneOlder d.inputQueue k w := by
    refine routed.run_invariant (I := NoneOlder d.inputQueue k) (fun _ _ _ h hs => noneOlder_step h hs) ⟨?_, ?_⟩ hrest
    · have hentry := (wired_step hy hz).entry k d hd
      rw [hentry.1]
      simpa using (List.getElem?_eq_some_iff.1 hentry.2.1).1
    · intro d' hd'
      cases hd.symm.trans hd'
      exact Nat.le_refl _
  -- an entry with this instance is the one of its `scope_id`
  have hown : ∀ k' d', w.server.instances.lookup k' = some d' → d'.inputQueue = d.inputQueue → k' = k := by
    intro k' d' hd' hq
    obtain ⟨hfuture, htask, -⟩ := hw.entry k' d' hd'
    rw [← hfuture, hq] at htask
    exact Option.some.inj (htask.symm.trans hid)
  obtain ⟨d', hd', rfl⟩ | ⟨hnew, rfl⟩ := postFor_cases hlater
  · refine ⟨hnone.2 d' hd', or_iff_not_imp_left.2 fun hne k' d₁ hd₁ hq => ?_⟩
    obtain rfl := hown k' d₁ hd₁ hq
    cases hd'.symm.trans hd₁
    exact hne hq
  · refine ⟨Nat.le_of_lt hnone.1, .inr fun k' d₁ hd₁ hq => ?_⟩
    obtain rfl := hown k' d₁ hd₁ hq
    cases hnew.symm.trans hd₁

/-- The entry for `7` is deleted between two calls: the second one makes another instance. -/
theorem post_order_deleted : ∃ y z w, routed.run (Routed.init 10) [] = some y ∧
    routed.step y (.post 7 true (0 : Nat) none (1 : Nat)) = some z ∧
    routed.run z [.server (.delete (7 : Nat))] = some w ∧
    (0 ≤ 1 ∧ (1 = 0 ∨ ∀ k' d, w.server.instances.lookup k' = some d → d.inputQueue ≠ 0)) := by
  obtain ⟨y, z, w, hy, hz, hw, hpost⟩ : ∃ y z w, routed.run (Routed.init 10) [] = some y ∧
      routed.step y (.post 7 true (0 : Nat) none (1 : Nat)) = some z ∧
      routed.run z [.server (.delete (7 : Nat))] = some w ∧
      PostFor 1 7 2 w (.post 7 true (1 : Nat) none (2 : Nat)) :=
    ⟨_, _, _, rfl, rfl, rfl, true, 1, none, rfl, rfl⟩
  refine ⟨y, z, w, hy, hz, hw, post_order hy ⟨true, 0, none, rfl, ?_⟩ hz hw hpost⟩
  cases hy
  rfl

/-! ### The scope of a `send` -/

/-- The call that makes the instance, for the `scope_id` and with the scope. -/
def Creates (n : Nat) (k : K) (scope : Scope) (x : Routed K Scope Time M) (a : RoutedAction K Scope Time M) : Prop :=
  x.server.instances.lookup k = none ∧ x.server.tasks.length = n ∧
    ∃ now app, a = .server (.getOrCreate k scope now app) ∨ ∃ message, a = .post k scope now app message

theorem scopes_getOrCreate {x : Routed K Scope Time M} {k : K} {scope : Scope} {now : Time} {app : Option Exn} {n : Nat}
    {scope' : Scope} (h : (x.getOrCreate k scope now app).1.scopes n = some scope') :
    x.scopes n = some scope' ∨ scope' = scope ∧ x.server.instances.lookup k = none ∧ x.server.tasks.length = n ∧
      (x.getOrCreate k scope now app).1.scopeId n = some k := by
  unfold Routed.scopeId Routed.getOrCreate at *
  obtain ⟨d, -, hcall⟩ | ⟨hk, t, -, hids, ⟨e, hcall⟩ | hcall⟩ := getOrCreate_cases x.server k scope now app <;>
    rw [hcall] at h ⊢ <;> dsimp only at h ⊢
  · rw [if_neg (Nat.lt_irrefl _)] at h
    exact .inl h
  · have hlen : t.tasks.length = x.server.tasks.length := by simpa using congrArg List.length hids
    rw [hlen, if_neg (Nat.lt_irrefl _)] at h
    exact .inl h
  · have hlen : t.tasks.length = x.server.tasks.length := by simpa using congrArg List.length hids
    rw [List.length_append, List.length_singleton, hlen, if_pos (Nat.lt_succ_self _)] at h
    by_cases hn : n = x.server.tasks.length
    · rw [hn, Function.update_self] at h
      cases h
      exact .inr ⟨rfl, hk, hn.symm, by rw [List.map_append, hids, hn]; simp⟩
    · rw [Function.update_of_ne hn] at h
      exact .inl h

/-- A scope is there from the call that made the instance. -/
theorem scopes_step {x x' : Routed K Scope Time M} {a : RoutedAction K Scope Time M} {n : Nat} {scope : Scope}
    (hstep : routed.step x a = some x') (h : x'.scopes n = some scope) :
    x.scopes n = some scope ∨ ∃ k, x'.scopeId n = some k ∧ Creates n k scope x a := by
  cases a with
  | server b =>
    obtain ⟨k, scope', now, app, rfl, rfl⟩ | ⟨hb, s, hs, rfl⟩ := server_cases hstep
    · obtain h | ⟨rfl, hk, hn, hid⟩ := scopes_getOrCreate h
      · exact .inl h
      · exact .inr ⟨k, hid, hk, hn, now, app, .inl rfl⟩
    · exact .inl h
  | post k scope' now app message =>
    have hcall (hp : (x.getOrCreate k scope' now app).1.scopes n = some scope) := scopes_getOrCreate hp
    simp only [routed, Routed.step] at hstep
    rcases hp : x.getOrCreate k scope' now app with ⟨y, e | i⟩ <;> rw [hp] at hstep hcall <;> cases hstep
    · obtain h | ⟨rfl, hk, hn, hid⟩ := hcall h
      · exact .inl h
      · exact .inr ⟨k, hid, hk, hn, now, app, .inr ⟨message, rfl⟩⟩
    · obtain h | ⟨rfl, hk, hn, hid⟩ := hcall h
      · exact .inl h
      · exact .inr ⟨k, hid, hk, hn, now, app, .inr ⟨message, rfl⟩⟩
  | putNowait i message =>
    obtain ⟨-, heq⟩ := Option.ite_none_right_eq_some.1 hstep
    cases heq
    exact .inl h
  | receive i =>
    simp only [routed, Routed.step] at hstep
    split at hstep <;> cases hstep
    exact .inl h
  | send i message =>
    obtain ⟨-, heq⟩ := Option.ite_none_right_eq_some.1 hstep
    cases heq
    exact .inl h

theorem created_of_scopes {maxApplications : Int} {x : Routed K Scope Time M} {as : List (RoutedAction K Scope Time M)}
    (hrun : routed.run (Routed.init maxApplications) as = some x) {n : Nat} {scope : Scope} (h : x.scopes n = some scope) :
    ∃ k, x.scopeId n = some k ∧ routed.Happened (Routed.init maxApplications) (Creates n k scope) as := by
  refine routed.run_history_of_meets (C := fun _ _ => True)
    (I := fun past y => y.scopes n = some scope →
      ∃ k, y.scopeId n = some k ∧ routed.Happened (Routed.init maxApplications) (Creates n k scope) past)
    (fun past y a z hpast ih _ hz hscope => ?_) (fun hinit => by cases hinit)
    (routed.meets_of_forall (fun _ _ _ => trivial) _) hrun h
  simp only [routed.happened_snoc hpast]
  obtain hold | ⟨k, hk, hc⟩ := scopes_step hz hscope
  · obtain ⟨k, hk, hh⟩ := ih hold
    exact ⟨k, scopeId_step hk hz, .inl hh⟩
  · exact ⟨k, hk, .inr hc⟩

/-- **The scope of a `send`.**  In every run, `application_send` is called for an instance with the scope of the call
that made it, whatever scopes later calls for its `scope_id` were given. -/
theorem send_scope {maxApplications : Int} {x x' : Routed K Scope Time M} {as : List (RoutedAction K Scope Time M)}
    (hrun : routed.run (Routed.init maxApplications) as = some x) {n : Nat} {message : M}
    (hstep : routed.step x (.send n message) = some x') : ∃ k scope, x.scopeId n = some k ∧
      x.applicationSend (.send n message) = some (scope, message) ∧
        routed.Happened (Routed.init maxApplications) (Creates n k scope) as := by
  obtain ⟨hn, -⟩ := Option.ite_none_right_eq_some.1 hstep
  obtain ⟨scope, hscope⟩ := Option.ne_none_iff_exists'.1 (((wired_run hrun).hasScope n).2 hn)
  obtain ⟨k, hk, hh⟩ := created_of_scopes hrun hscope
  exact ⟨k, scope, hk, by simp [Routed.applicationSend, hscope], hh⟩

/-- The scope `false` of the second call for the `scope_id` is not passed on. -/
theorem send_scope_requests : ∃ x, routed.run (Routed.init 10) requests = some x ∧ ∃ k scope, x.scopeId 0 = some k ∧
    x.applicationSend (.send 0 9) = some (scope, 9) ∧
      routed.Happened (Routed.init 10) (Creates 0 k scope) requests :=
  ⟨_, rfl, send_scope rfl rfl⟩

end Asgiref.Server
