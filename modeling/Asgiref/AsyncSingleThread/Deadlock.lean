import Asgiref.AsyncSingleThread.Steps
import Mathlib.Data.List.Nodup

/-!
# Calls that wait for their own worker

An `AsyncToSync` call without a parent loop hands `asyncio.run` to the one worker of the context object it carries.
Where the worker is running a coroutine that waits for this very call, neither goes on.

* `Deadlocked`: such a call is in the queue; `FindsLoop`: the condition on the calls under such a coroutine;
* `Tree`, `Inv`: who waits for whom, who carries which object, and that a function run by `thread_handler` under such a
  coroutine finds its loop in the thread-local of its thread;
* `noDeadlock_iff_findsLoop`: no call waits for its own worker in exactly the runs whose calls meet the condition.
-/

namespace Asgiref.AsyncSingleThread

open Asgiref.Python Asgiref.Lib

/-- A coroutine in the queue of a worker, under the coroutine that the worker is running. -/
def Deadlocked (s : State) : Prop :=
  ∃ p x b l a c, s.pools p = some x ∧ x.current = some (b, l) ∧ a ∈ x.queue ∧ s.bodies a = some c ∧ b ∈ c.above

/-- The worker of the object that the body carries is running a coroutine that waits for it. -/
def Encloses (s : State) (x : Body) : Prop := ∃ b ∈ x.above, x.single.bind s.worker = some b

instance (s : State) (x : Body) : Decidable (Encloses s x) :=
  inferInstanceAs (Decidable (∃ b ∈ x.above, x.single.bind s.worker = some b))

/-- `thread_handler` runs the function. -/
def Kind.isHandler : Kind → Bool
  | .handler _ _ => true
  | _ => false

/-- An `AsyncToSync` call under a coroutine that its worker is running has no `force_new_loop`, and if
`thread_handler` does not run the function that makes it, but `asyncio.to_thread`, then the thread-local of the thread
still names an open loop of this process. -/
def FindsLoop (s : State) : Action → Prop
  | .callAsync f _ forceNewLoop _ =>
    match s.bodies f with
    | some x =>
      match x.phase with
      | .onThread t => Encloses s x → forceNewLoop = false ∧
          (x.kind.isHandler = false → (acceptedBy s (mainEventLoop s t false)).isSome)
      | _ => True
    | none => True
  | _ => True

instance (s : State) (a : Action) : Decidable (FindsLoop s a) := by
  unfold FindsLoop
  split
  · split
    · split <;> infer_instance
    · infer_instance
  · infer_instance

/-! ### Who waits for whom -/

/-- The relations between the bodies. -/
structure Tree (s : State) : Prop where
  /-- what waits has been started -/
  above : ∀ i x b, s.bodies i = some x → b ∈ x.above → ∃ c, s.bodies b = some c ∧ c.phase ≠ .queued
  blocked : ∀ i x t a, s.bodies i = some x → x.phase = .blocked t a → Under s i x a
  awaiting : ∀ i x f, s.bodies i = some x → f ∈ x.awaiting → Under s i x f
  caller : ∀ i x f p, s.bodies i = some x → x.kind = .coroutine (some f) p →
    ∃ y, s.bodies f = some y ∧ x.above = f :: y.above
  /-- a coroutine is on no thread -/
  coroutine : ∀ i x c p, s.bodies i = some x → x.kind = .coroutine c p → x.phase.thread? = none
  tokens : ∀ m k, s.tokens m = some k → ∃ x, s.bodies k.body = some x

variable {s s' : State} {a : Action} {i : BodyId} {x x' : Body}

theorem started_step (hs : step s a = some s') {b : BodyId} (h : ∃ c, s.bodies b = some c ∧ c.phase ≠ .queued) :
    ∃ c, s'.bodies b = some c ∧ c.phase ≠ .queued := by
  obtain ⟨c, hc, hphase⟩ := h
  obtain ⟨c', hc', hto⟩ := body_step hs hc
  exact ⟨c', hc', hto.not_queued hphase⟩

theorem under_step (hs : step s a = some s') (habove : x'.above = x.above) {j : BodyId} (h : Under s i x j) :
    Under s' i x' j := by
  obtain ⟨y, hy, hy'⟩ := h
  obtain ⟨z, hz, hto⟩ := body_step hs hy
  exact ⟨z, hz, by rw [hto.above, hy', habove]⟩

theorem Under.congr {j : BodyId} (h : Under s i x j) (habove : x'.above = x.above) : Under s i x' j := by
  obtain ⟨y, hy, hy'⟩ := h
  exact ⟨y, hy, by rw [hy', habove]⟩

theorem tree_init (pid : Nat) : Tree { pid := pid } := ⟨nofun, nofun, nofun, nofun, nofun, nofun⟩

/-- The bodies that wait have been started. -/
theorem Tree.above_step (h : Tree s) (hs : step s a = some s') {b : BodyId} (hx' : s'.bodies i = some x')
    (hb : b ∈ x'.above) : ∃ c, s'.bodies b = some c ∧ c.phase ≠ .queued := by
  refine started_step hs ?_
  have hunder : ∀ {j : BodyId} {y : Body}, s.bodies j = some y → y.phase ≠ .queued → b ∈ j :: y.above →
      ∃ c, s.bodies b = some c ∧ c.phase ≠ .queued := by
    intro j y hj hphase hb
    obtain rfl | hb := List.mem_cons.1 hb
    · exact ⟨y, hj, hphase⟩
    · exact h.above j y b hj hb
  cases hx : s.bodies i with
  | some x =>
    obtain ⟨y, hy, hto⟩ := body_step hs hx
    cases hx'.symm.trans hy
    exact h.above i x b hx (hto.above ▸ hb)
  | none =>
    cases born_step hs hx' hx with
    | root => exact absurd hb List.not_mem_nil
    | rootLoop => exact absurd hb List.not_mem_nil
    | handler hc _ hphase => exact hunder hc (by rw [hphase]; nofun) hb
    | toThread hc hphase => exact hunder hc (by rw [hphase]; nofun) hb
    | onParent hf hphase => exact hunder hf (by rw [hphase]; nofun) hb
    | inPool hf hphase => exact hunder hf (by rw [hphase]; nofun) hb

theorem Tree.blocked_step (h : Tree s) (hs : step s a = some s') {t : ThreadId} {b : BodyId}
    (hx' : s'.bodies i = some x') (hphase : x'.phase = .blocked t b) : Under s' i x' b := by
  cases hx : s.bodies i with
  | some x =>
    obtain ⟨y, hy, hto⟩ := body_step hs hx
    cases hx'.symm.trans hy
    have hold : x.phase = .blocked t b → Under s' i x' b := fun hp => under_step hs hto.above (h.blocked i x t b hx hp)
    cases hto with
    | call _ hu =>
      cases hphase
      exact hu.congr rfl
    | same => exact hold hphase
    | enter => exact hold hphase
    | reset => exact hold hphase
    | callSync => exact hold hphase
    | toThread => exact hold hphase
    | resume => exact hold hphase
    | strand => exact hold hphase
    | _ => cases hphase
  | none => cases born_step hs hx' hx <;> cases hphase

theorem Tree.awaiting_step (h : Tree s) (hs : step s a = some s') {f : BodyId} (hx' : s'.bodies i = some x')
    (hf : f ∈ x'.awaiting) : Under s' i x' f := by
  cases hx : s.bodies i with
  | some x =>
    obtain ⟨y, hy, hto⟩ := body_step hs hx
    cases hx'.symm.trans hy
    have hold : f ∈ x.awaiting → Under s' i x' f := fun hf => under_step hs hto.above (h.awaiting i x f hx hf)
    have hcons : ∀ g, Under s' i x' g → f ∈ g :: x.awaiting → Under s' i x' f := by
      intro g hg hmem
      obtain rfl | hmem := List.mem_cons.1 hmem
      · exact hg
      · exact hold hmem
    cases hto with
    | callSync hu => exact hcons _ (hu.congr rfl) hf
    | toThread hu => exact hcons _ (hu.congr rfl) hf
    | resume => exact hold (List.mem_of_mem_erase hf)
    | strand => exact hold (List.mem_of_mem_erase hf)
    | _ => exact hold hf
  | none =>
    rw [(born_step hs hx' hx).awaiting] at hf
    exact absurd hf List.not_mem_nil

theorem Tree.caller_step (h : Tree s) (hs : step s a = some s') {f : BodyId} {p : Option PoolId}
    (hx' : s'.bodies i = some x') (hkind : x'.kind = .coroutine (some f) p) :
    ∃ y, s'.bodies f = some y ∧ x'.above = f :: y.above := by
  have hkeep : ∀ {y : Body}, s.bodies f = some y → x'.above = f :: y.above →
      ∃ y', s'.bodies f = some y' ∧ x'.above = f :: y'.above := by
    intro y hf habove
    obtain ⟨y', hy', hto⟩ := body_step hs hf
    exact ⟨y', hy', by rw [hto.above, habove]⟩
  cases hx : s.bodies i with
  | some x =>
    obtain ⟨y, hy, hto⟩ := body_step hs hx
    cases hx'.symm.trans hy
    obtain ⟨z, hz, habove⟩ := h.caller i x f p hx (by rw [← hto.kind, hkind])
    exact hkeep hz (by rw [hto.above, habove])
  | none =>
    cases born_step hs hx' hx with
    | onParent hf => cases hkind; exact hkeep hf rfl
    | inPool hf => cases hkind; exact hkeep hf rfl
    | _ => cases hkind

theorem Tree.coroutine_step (h : Tree s) (hs : step s a = some s') {c : Option BodyId} {p : Option PoolId}
    (hx' : s'.bodies i = some x') (hkind : x'.kind = .coroutine c p) : x'.phase.thread? = none := by
  cases hx : s.bodies i with
  | some x =>
    obtain ⟨y, hy, hto⟩ := body_step hs hx
    cases hx'.symm.trans hy
    have hk : x.kind = .coroutine c p := by rw [← hto.kind, hkind]
    have hold := h.coroutine i x c p hx hk
    cases hto with
    | start _ hne => exact absurd hk (hne c p)
    | call hphase => rw [hphase] at hold; cases hold
    | abandon hphase => rw [hphase] at hold; cases hold
    | returns hphase => rw [hphase] at hold; cases hold
    | runLoop => rfl
    | endCoroutine => rfl
    | endFunction => rfl
    | _ => exact hold
  | none => cases born_step hs hx' hx <;> first | rfl | cases hkind

theorem tree_step (h : Tree s) (hs : step s a = some s') : Tree s' where
  above _ _ _ := h.above_step hs
  blocked _ _ _ _ := h.blocked_step hs
  awaiting _ _ _ := h.awaiting_step hs
  caller _ _ _ _ := h.caller_step hs
  coroutine _ _ _ _ := h.coroutine_step hs
  tokens m k hk := by
    have hexists : ∃ x, s.bodies k.body = some x := by
      obtain ⟨o, ho, hbody, -⟩ | ⟨x, hx, -⟩ := token_step hs hk
      · rw [← hbody]
        exact h.tokens m o ho
      · exact ⟨x, hx⟩
    obtain ⟨x, hx⟩ := hexists
    obtain ⟨x', hx', -⟩ := body_step hs hx
    exact ⟨x', hx'⟩

/-! ### Who carries which object -/

/-- The pools, their queues and their workers. -/
structure Pools (s : State) : Prop where
  table : ∀ m p, s.table m = some p → ∃ y, s.pools p = some y ∧ y.owner = some m
  queue : ∀ p y b, s.pools p = some y → b ∈ y.queue →
    ∃ c f, s.bodies b = some c ∧ c.phase = .queued ∧ c.kind = .coroutine (some f) (some p)
  nodup : ∀ p y, s.pools p = some y → y.queue.Nodup
  current : ∀ p y b l, s.pools p = some y → y.current = some (b, l) →
    ∃ c, s.bodies b = some c ∧ (c.phase = .onLoop l ∨ c.phase = .ended)

theorem pools_init (pid : Nat) : Pools { pid := pid } := ⟨nofun, nofun, nofun, nofun⟩

/-- A queued coroutine is started by the worker that takes it. -/
theorem queued_step (hs : step s a = some s') {b : BodyId} {c : Body} {f : BodyId} {p : PoolId} (h : Pools s)
    (hc : s.bodies b = some c) (hphase : c.phase = .queued) (hkind : c.kind = .coroutine (some f) (some p)) :
    (∃ c', s'.bodies b = some c' ∧ c'.phase = .queued ∧ c'.kind = .coroutine (some f) (some p)) ∨
      ∃ l y rest, a = .runLoop p l ∧ s.pools p = some y ∧ y.queue = b :: rest := by
  obtain ⟨c', hc', hto⟩ := body_step hs hc
  have hold : c'.phase = .queued →
      ∃ c', s'.bodies b = some c' ∧ c'.phase = .queued ∧ c'.kind = .coroutine (some f) (some p) := by
    intro hp
    exact ⟨c', hc', hp, by rw [hto.kind, hkind]⟩
  cases hto with
  | start _ hne => exact absurd hkind (hne _ _)
  | @runLoop q l y rest hy hq =>
    obtain ⟨d, g, hd, -, hd'⟩ := h.queue q y b hy (by rw [hq]; exact List.mem_cons_self ..)
    cases hc.symm.trans hd
    cases hkind.symm.trans hd'
    exact .inr ⟨l, y, rest, rfl, hy, hq⟩
  | call hp => rw [hphase] at hp; cases hp
  | abandon hp => rw [hphase] at hp; cases hp
  | endCoroutine hp => rw [hphase] at hp; cases hp
  | returns hp => rw [hphase] at hp; cases hp
  | endFunction hp => rw [hphase] at hp; cases hp
  | _ => exact .inl (hold hphase)

/-- What a worker runs goes on until it ends. -/
theorem current_step (hs : step s a = some s') {b : BodyId} {l : LoopId}
    (h : ∃ c, s.bodies b = some c ∧ (c.phase = .onLoop l ∨ c.phase = .ended)) :
    ∃ c, s'.bodies b = some c ∧ (c.phase = .onLoop l ∨ c.phase = .ended) := by
  obtain ⟨c, hc, hphase⟩ := h
  obtain ⟨c', hc', hto⟩ := body_step hs hc
  refine ⟨c', hc', ?_⟩
  cases hto with
  | endCoroutine => exact .inr rfl
  | start hp => rw [hp] at hphase; exact absurd hphase (by simp)
  | call hp => rw [hp] at hphase; exact absurd hphase (by simp)
  | abandon hp => rw [hp] at hphase; exact absurd hphase (by simp)
  | runLoop _ _ hp => rw [hp] at hphase; exact absurd hphase (by simp)
  | returns hp => rw [hp] at hphase; exact absurd hphase (by simp)
  | endFunction => exact .inr rfl
  | _ => exact hphase

/-- A coroutine in the queue of a pool waits on, or is taken by the worker. -/
theorem Pools.queue_step (h : Pools s) (hs : step s a = some s') {p : PoolId} {y : Pool} {b : BodyId}
    (hy : s.pools p = some y) (hb : b ∈ y.queue) :
    (∃ c f, s'.bodies b = some c ∧ c.phase = .queued ∧ c.kind = .coroutine (some f) (some p)) ∨
      ∃ l rest, a = .runLoop p l ∧ y.queue = b :: rest := by
  obtain ⟨c, f, hc, hphase, hkind⟩ := h.queue p y b hy hb
  obtain ⟨c', hc', hp, hk⟩ | ⟨l, z, rest, rfl, hz, hq⟩ := queued_step hs h hc hphase hkind
  · exact .inl ⟨c', f, hc', hp, hk⟩
  · cases hy.symm.trans hz
    exact .inr ⟨l, rest, rfl, hq⟩

theorem pools_step (h : Pools s) (hs : step s a = some s') : Pools s' where
  table m p hm := by
    obtain hold | ⟨-, b, hnew⟩ := table_step hs hm
    · obtain ⟨x, hx, ho⟩ := h.table m p hold
      obtain ⟨y, hy, ho'⟩ := pool_stays hs hx
      exact ⟨y, hy, ho'.trans ho⟩
    · exact ⟨_, hnew, rfl⟩
  queue p y b hy hb := by
    cases pool_step hs hy with
    | same hx hne =>
      obtain hq | ⟨l, rest, rfl, -⟩ := h.queue_step hs hx hb
      · exact hq
      · exact absurd rfl (hne l)
    | submitted hx _ _ _ hb' =>
      obtain hmem | hmem := List.mem_append.1 hb
      · obtain hq | ⟨l, rest, hrun, -⟩ := h.queue_step hs hx hmem
        · exact hq
        · cases hrun
      · obtain rfl := List.mem_singleton.1 hmem
        exact ⟨_, _, hb', rfl, rfl⟩
    | made _ _ _ hb' =>
      obtain rfl := List.mem_singleton.1 hb
      exact ⟨_, _, hb', rfl, rfl⟩
    | @took l x b' rest c hx hq =>
      obtain hq' | ⟨l', rest', hrun, hq'⟩ :=
        h.queue_step hs hx (by rw [hq]; exact List.mem_cons_of_mem _ hb)
      · exact hq'
      · have hnodup := h.nodup p x hx
        rw [hq'] at hq hnodup
        cases hq
        exact absurd hb (List.nodup_cons.1 hnodup).1
    | released hx =>
      obtain hq | ⟨l, rest, hrun, -⟩ := h.queue_step hs hx hb
      · exact hq
      · cases hrun
  nodup p y hy := by
    cases pool_step hs hy with
    | same hx => exact h.nodup p y hx
    | @submitted f b force q x z t m hx _ _ hnone =>
      have hb : b ∉ x.queue := by
        intro hb
        obtain ⟨c, f, hc, -⟩ := h.queue p x b hx hb
        rw [hnone] at hc
        cases hc
      exact List.nodup_append.2 ⟨h.nodup p x hx, List.nodup_singleton b, by
        rintro j hj k hk rfl
        exact hb (List.mem_singleton.1 hk ▸ hj)⟩
    | made => exact List.nodup_singleton _
    | took hx hq =>
      have hnodup := h.nodup p _ hx
      rw [hq] at hnodup
      exact (List.nodup_cons.1 hnodup).2
    | @released x hx => exact h.nodup p x hx
  current p y b l hy hcur := by
    cases pool_step hs hy with
    | same hx => exact current_step hs (h.current p y b l hx hcur)
    | submitted hx => exact current_step hs (h.current p _ b l hx hcur)
    | made => cases hcur
    | took _ _ _ _ hb =>
      cases hcur
      exact ⟨_, hb, .inl rfl⟩
    | released => cases hcur

/-- The context of the body `i` has the object `m`, and was not the one that set it. -/
def Bears (s : State) (m : ContextId) (i : BodyId) : Prop :=
  (∀ x, s.bodies i = some x → x.single = some m) ∧ ∀ n k, s.tokens n = some k → k.body = i → k.used = true

/-- The body waits for the worker, is run by it, or is under what it runs. -/
def Member (s : State) (y : Pool) (i : BodyId) : Prop :=
  i ∈ y.queue ∨ ∃ b l, y.current = some (b, l) ∧ (i = b ∨ ∃ x, s.bodies i = some x ∧ b ∈ x.above)

def AllBear (s : State) : Prop :=
  ∀ p y m i, s.pools p = some y → y.owner = some m → Member s y i → Bears s m i

/-- What is under a body that waits is a member with it. -/
theorem Member.under (hT : Tree s) (hP : Pools s) {p : PoolId} {y : Pool} {j : BodyId} (hp : s.pools p = some y)
    (h : Member s y i) (hx : s.bodies i = some x) (hu : Under s i x j) : Member s y j := by
  obtain ⟨z, hz, hz'⟩ := hu
  obtain hq | ⟨b, l, hb, hi⟩ := h
  · obtain ⟨c, f, hc, hphase, -⟩ := hP.queue p y i hp hq
    obtain ⟨d, hd, hstarted⟩ := hT.above j z i hz (by rw [hz']; exact List.mem_cons_self ..)
    cases hc.symm.trans hd
    exact absurd hphase hstarted
  · refine .inr ⟨b, l, hb, .inr ⟨z, hz, ?_⟩⟩
    rw [hz']
    obtain rfl | ⟨w, hw, hmem⟩ := hi
    · exact List.mem_cons_self ..
    · cases hx.symm.trans hw
      exact List.mem_cons_of_mem _ hmem

/-- The object stays with a member. -/
theorem bears_keep (hT : Tree s) (hP : Pools s) (hB : AllBear s) (hs : step s a = some s') {p : PoolId} {y : Pool}
    {m : ContextId} (hp : s.pools p = some y) (ho : y.owner = some m) (hi : Member s y i) (hx : s.bodies i = some x) :
    Bears s' m i := by
  have hbears := hB p y m i hp ho hi
  have hsingle := hbears.1 x hx
  refine ⟨fun x' hx' => ?_, fun n k hk hbody => ?_⟩
  · obtain ⟨z, hz, hto⟩ := body_step hs hx
    cases hx'.symm.trans hz
    have hrestore : ∀ {j : BodyId} {w : Body}, Under s i x j → s.bodies j = some w →
        restore w.single x.single = some m := by
      intro j w hu hw
      have hw' := (hB p y m j hp ho (hi.under hT hP hp hx hu)).1 w hw
      rw [hw']
      rfl
    cases hto with
    | enter hnone => rw [hsingle] at hnone; cases hnone
    | reset hk hbody hused =>
      rw [hbears.2 _ _ hk hbody] at hused
      cases hused
    | returns hphase hb => exact hrestore (hT.blocked i x _ _ hx hphase) hb
    | resume hf hmem _ hsome =>
      obtain rfl | rfl := hsome
      · exact hsingle
      · exact hrestore (hT.awaiting i x _ hx hmem) hf
    | _ => exact hsingle
  · obtain ⟨o, ho', hbody', hused⟩ | ⟨z, hz, hnone⟩ := token_step hs hk
    · have hold := hbears.2 n o ho' (hbody'.trans hbody)
      by_contra hk
      rw [hused (by simpa using hk)] at hold
      cases hold
    · rw [hbody, hx] at hz
      cases hz
      rw [hsingle] at hnone
      cases hnone

/-- A new body gets the object of the one that calls, and no token. -/
theorem bears_born (hT : Tree s) (hs : step s a = some s') {m : ContextId} (hi : s.bodies i = none)
    (h : ∀ x, s'.bodies i = some x → x.single = some m) : Bears s' m i := by
  refine ⟨h, fun n k hk hbody => ?_⟩
  have hexists : ∃ x, s.bodies k.body = some x := by
    obtain ⟨o, ho, hbody', -⟩ | ⟨x, hx, -⟩ := token_step hs hk
    · rw [← hbody']
      exact hT.tokens n o ho
    · exact ⟨x, hx⟩
  obtain ⟨x, hx⟩ := hexists
  rw [hbody, hi] at hx
  cases hx

/-- A body under what the worker runs. -/
theorem bears_above (hT : Tree s) (hP : Pools s) (hB : AllBear s) (hs : step s a = some s') {p : PoolId} {y : Pool}
    {m : ContextId} {b : BodyId} {l : LoopId} (hp : s.pools p = some y) (ho : y.owner = some m)
    (hcur : y.current = some (b, l)) (hx' : s'.bodies i = some x') (hb : b ∈ x'.above) : Bears s' m i := by
  have hunder : ∀ {j : BodyId} {c : Body}, s.bodies j = some c → b ∈ j :: c.above → c.single = some m := by
    intro j c hc hmem
    refine (hB p y m j hp ho (.inr ⟨b, l, hcur, ?_⟩)).1 c hc
    obtain rfl | hmem := List.mem_cons.1 hmem
    · exact .inl rfl
    · exact .inr ⟨c, hc, hmem⟩
  cases hx : s.bodies i with
  | some x =>
    obtain ⟨z, hz, hto⟩ := body_step hs hx
    cases hx'.symm.trans hz
    exact bears_keep hT hP hB hs hp ho (.inr ⟨b, l, hcur, .inr ⟨x, hx, hto.above ▸ hb⟩⟩) hx
  | none =>
    refine bears_born hT hs hx fun z hz => ?_
    cases hx'.symm.trans hz
    cases born_step hs hx' hx with
    | root => exact absurd hb List.not_mem_nil
    | rootLoop => exact absurd hb List.not_mem_nil
    | handler hc => have hsingle := hunder hc hb; exact hsingle
    | toThread hc => have hsingle := hunder hc hb; exact hsingle
    | onParent hf => have hsingle := hunder hf hb; exact hsingle
    | inPool hf => have hsingle := hunder hf hb; exact hsingle

theorem allBear_step (hT : Tree s) (hP : Pools s) (hB : AllBear s) (hs : step s a = some s') : AllBear s' := by
  intro p y' m i hy' ho hi
  have hqueue : ∀ {y : Pool}, s.pools p = some y → y.owner = some m → i ∈ y.queue → Bears s' m i := by
    intro y hy ho hq
    obtain ⟨c, f, hc, -⟩ := hP.queue p y i hy hq
    exact bears_keep hT hP hB hs hy ho (.inl hq) hc
  have hcurrent : ∀ {y : Pool} {b : BodyId} {l : LoopId}, s.pools p = some y → y.owner = some m →
      y.current = some (b, l) → (i = b ∨ ∃ x, s'.bodies i = some x ∧ b ∈ x.above) → Bears s' m i := by
    intro y b l hy ho hcur hi
    obtain rfl | ⟨x', hx', hb⟩ := hi
    · obtain ⟨c, hc, -⟩ := hP.current p y i l hy hcur
      exact bears_keep hT hP hB hs hy ho (.inr ⟨i, l, hcur, .inl rfl⟩) hc
    · exact bears_above hT hP hB hs hy ho hcur hx' hb
  cases pool_step hs hy' with
  | same hy =>
    obtain hq | ⟨b, l, hcur, hi⟩ := hi
    · exact hqueue hy ho hq
    · exact hcurrent hy ho hcur hi
  | released hy =>
    obtain hq | ⟨b, l, hcur, -⟩ := hi
    · exact hqueue hy ho hq
    · cases hcur
  | submitted hy _ _ hnone hb _ hm ht =>
    obtain hq | ⟨b, l, hcur, hi⟩ := hi
    · obtain hq | hq := List.mem_append.1 hq
      · exact hqueue hy ho hq
      · obtain rfl := List.mem_singleton.1 hq
        refine bears_born hT hs hnone fun z hz => ?_
        cases hb.symm.trans hz
        obtain ⟨w, hw, how⟩ := hP.table _ p ht
        cases hy.symm.trans hw
        rw [show (called _ _ _ _).single = _ from hm, ← how, ← ho]
    · exact hcurrent hy ho hcur hi
  | made _ _ hnone hb =>
    obtain hq | ⟨b, l, hcur, -⟩ := hi
    · obtain rfl := List.mem_singleton.1 hq
      refine bears_born hT hs hnone fun z hz => ?_
      cases hb.symm.trans hz
      exact ho
    · cases hcur
  | @took l y b rest c hy hq hc hphase hb =>
    obtain hq' | ⟨b', l', hcur, hi⟩ := hi
    · exact hqueue hy ho (by rw [hq]; exact List.mem_cons_of_mem _ hq')
    · cases hcur
      obtain rfl | ⟨x', hx', hmem⟩ := hi
      · exact hqueue hy ho (by rw [hq]; exact List.mem_cons_self ..)
      · cases hx : s.bodies i with
        | some x =>
          obtain ⟨z, hz, hto⟩ := body_step hs hx
          cases hx'.symm.trans hz
          obtain ⟨d, hd, hstarted⟩ := hT.above i x b hx (hto.above ▸ hmem)
          cases hc.symm.trans hd
          exact absurd hphase hstarted
        | none => cases born_step hs hx' hx

/-! ### Loops and threads -/

/-- The loop on which a function was called runs the coroutine that awaits it. -/
structure Loops (s : State) : Prop where
  runs : ∀ b c l, s.bodies b = some c → c.phase = .onLoop l → Runs s l b
  handler : ∀ f y l h, s.bodies f = some y → y.kind = .handler l h → y.phase ≠ .ended →
    ∃ b c, s.bodies b = some c ∧ c.phase = .onLoop l ∧ f ∈ c.awaiting ∧
      ∀ g, h = some g → ∃ p, c.kind = .coroutine (some g) p

theorem loops_init (pid : Nat) : Loops { pid := pid } := ⟨nofun, nofun⟩

theorem Loops.runs_step (h : Loops s) (hs : step s a = some s') {l : LoopId} (hx' : s'.bodies i = some x')
    (hphase : x'.phase = .onLoop l) : Runs s' l i := by
  cases hx : s.bodies i with
  | some x =>
    obtain ⟨y, hy, hto⟩ := body_step hs hx
    cases hx'.symm.trans hy
    have hold : x.phase = .onLoop l → Runs s' l i := by
      intro hp
      obtain hruns | ⟨c, hc, hended⟩ := AsyncSingleThread.runs_step hs (h.runs i x l hx hp)
      · exact hruns
      · cases hx'.symm.trans hc
        rw [hphase] at hended
        cases hended
    cases hto with
    | runLoop _ _ _ hruns =>
      cases hphase
      exact hruns
    | same => exact hold hphase
    | enter => exact hold hphase
    | reset => exact hold hphase
    | callSync => exact hold hphase
    | toThread => exact hold hphase
    | resume => exact hold hphase
    | strand => exact hold hphase
    | _ => cases hphase
  | none =>
    cases born_step hs hx' hx with
    | rootLoop hruns => cases hphase; exact hruns
    | onParent _ _ _ hruns => cases hphase; exact hruns
    | _ => cases hphase

/-- A function that has not ended is awaited on. -/
theorem awaited_step (hs : step s a = some s') {b f : BodyId} {c y : Body} {l : LoopId} (hc : s.bodies b = some c)
    (hphase : c.phase = .onLoop l) (hf : f ∈ c.awaiting) (hy : s.bodies f = some y) (hne : y.phase ≠ .ended) :
    ∃ c', s'.bodies b = some c' ∧ c'.phase = .onLoop l ∧ f ∈ c'.awaiting ∧ c'.kind = c.kind := by
  obtain ⟨c', hc', hto⟩ := body_step hs hc
  refine ⟨c', hc', ?_⟩
  have herase : ∀ {g : BodyId} {z : Body}, s.bodies g = some z → z.phase = .ended → f ∈ c.awaiting.erase g := by
    intro g z hg hended
    refine (List.mem_erase_of_ne ?_).2 hf
    rintro rfl
    cases hy.symm.trans hg
    exact hne hended
  cases hto with
  | same => exact ⟨hphase, hf, rfl⟩
  | enter => exact ⟨hphase, hf, rfl⟩
  | reset => exact ⟨hphase, hf, rfl⟩
  | callSync => exact ⟨hphase, List.mem_cons_of_mem _ hf, rfl⟩
  | toThread => exact ⟨hphase, List.mem_cons_of_mem _ hf, rfl⟩
  | start hp => rw [hphase] at hp; cases hp
  | call hp => rw [hphase] at hp; cases hp
  | abandon hp => rw [hphase] at hp; cases hp
  | runLoop _ _ hp => rw [hphase] at hp; cases hp
  | endCoroutine _ hnil => rw [hnil] at hf; exact absurd hf List.not_mem_nil
  | returns hp => rw [hphase] at hp; cases hp
  | endFunction hp => rw [hphase] at hp; cases hp
  | resume hg _ hended => exact ⟨hphase, herase hg hended, rfl⟩
  | strand _ hg _ hended => exact ⟨hphase, herase hg hended, rfl⟩

theorem BodyTo.not_ended (h : BodyTo s s' i x a x') (hx' : x'.phase ≠ .ended) : x.phase ≠ .ended := by
  cases h with
  | start hp => rw [hp]; nofun
  | call hp => rw [hp]; nofun
  | abandon hp => rw [hp]; nofun
  | runLoop _ _ hp => rw [hp]; nofun
  | returns hp => rw [hp]; nofun
  | endCoroutine => exact absurd rfl hx'
  | endFunction => exact absurd rfl hx'
  | _ => exact hx'

theorem loops_step (h : Loops s) (hs : step s a = some s') : Loops s' where
  runs _ _ _ := h.runs_step hs
  handler f y' l e hy' hkind hne := by
    cases hy : s.bodies f with
    | some y =>
      obtain ⟨z, hz, hto⟩ := body_step hs hy
      cases hy'.symm.trans hz
      have hold := hto.not_ended hne
      obtain ⟨b, c, hc, hphase, hf, hcaller⟩ := h.handler f y l e hy (by rw [← hto.kind, hkind]) hold
      obtain ⟨c', hc', hphase', hf', hkind'⟩ := awaited_step hs hc hphase hf hy hold
      exact ⟨b, c', hc', hphase', hf', by rw [hkind']; exact hcaller⟩
    | none =>
      cases born_step hs hy' hy with
      | @handler b f ts c caller p l hc hk hphase hc' =>
        cases hkind
        refine ⟨b, _, hc', hphase, List.mem_cons_self .., fun g hg => ⟨p, ?_⟩⟩
        split at hg
        · rw [← hg]
          exact hk
        · cases hg
      | _ => cases hkind

/-- On the stack of one thread, above the function `g`: run by `thread_handler`, and under all that `g` is under. -/
def Inner (s : State) (f g : BodyId) : Prop :=
  ∃ x y, s.bodies f = some x ∧ s.bodies g = some y ∧ x.kind.isHandler = true ∧ ∀ b ∈ y.above, b ∈ x.above

structure Threads (s : State) : Prop where
  on : ∀ i x t, s.bodies i = some x → x.phase.thread? = some t → i ∈ (s.threads t).stack
  nested : ∀ t, (s.threads t).stack.Pairwise (Inner s)

theorem threads_init (pid : Nat) : Threads { pid := pid } := ⟨nofun, fun _ => .nil⟩

theorem inner_step (hs : step s a = some s') {f g : BodyId} (h : Inner s f g) : Inner s' f g := by
  obtain ⟨x, y, hx, hy, hk, hsub⟩ := h
  obtain ⟨x', hx', hto⟩ := body_step hs hx
  obtain ⟨y', hy', hto'⟩ := body_step hs hy
  exact ⟨x', y', hx', hy', by rw [hto.kind, hk], by rw [hto.above, hto'.above]; exact hsub⟩

/-- The function that a waiting thread starts is under the function that waits. -/
theorem inner_of_takes (hT : Tree s) (hL : Loops s) {f h : BodyId} {x y : Body} {l : LoopId} (hy : s.bodies f = some y)
    (hphase : y.phase = .queued) (hkind : y.kind = .handler l (some h)) (hx : s.bodies h = some x) : Inner s f h := by
  obtain ⟨b, c, hc, -, hf, hcaller⟩ := hL.handler f y l _ hy hkind (by rw [hphase]; nofun)
  obtain ⟨p, hp⟩ := hcaller h rfl
  obtain ⟨z, hz, hz'⟩ := hT.awaiting b c f hc hf
  obtain ⟨w, hw, hw'⟩ := hT.caller b c h p hc hp
  cases hy.symm.trans hz
  cases hx.symm.trans hw
  refine ⟨y, x, hy, hx, by rw [hkind]; rfl, fun d hd => ?_⟩
  rw [hz', hw']
  exact List.mem_cons_of_mem _ (List.mem_cons_of_mem _ hd)

theorem Inner.trans {f g h : BodyId} (h₁ : Inner s f g) (h₂ : Inner s g h) : Inner s f h := by
  obtain ⟨x, y, hx, hy, hk, hsub⟩ := h₁
  obtain ⟨y', z, hy', hz, -, hsub'⟩ := h₂
  cases hy.symm.trans hy'
  exact ⟨x, z, hx, hz, hk, fun b hb => hsub b (hsub' b hb)⟩

/-- A function stays on the stack of its thread until it ends. -/
theorem stack_step (hs : step s a = some s') (hx' : s'.bodies i = some x') {t : ThreadId}
    (ht : x'.phase.thread? = some t) (hi : i ∈ (s.threads t).stack) : i ∈ (s'.threads t).stack := by
  generalize hth : s'.threads t = th
  cases hth ▸ thread_step hs t with
  | same => exact hi
  | root hnil =>
    rw [hnil] at hi
    exact absurd hi List.not_mem_nil
  | handler => exact List.mem_cons_of_mem _ hi
  | toThread => exact List.mem_cons_of_mem _ hi
  | ended hst hc hended =>
    rw [hst] at hi
    obtain rfl | hi := List.mem_cons.1 hi
    · cases hx'.symm.trans hc
      rw [hended] at ht
      cases ht
    · exact hi

theorem threads_step (hT : Tree s) (hL : Loops s) (h : Threads s) (hs : step s a = some s') : Threads s' where
  on i x' t hx' ht := by
    cases hx : s.bodies i with
    | some x =>
      obtain ⟨y, hy, hto⟩ := body_step hs hx
      cases hx'.symm.trans hy
      have hold : x.phase.thread? = some t → i ∈ (s'.threads t).stack := by
        intro hold
        exact stack_step hs hx' ht (h.on i x t hx hold)
      cases hto with
      | start _ _ hmem =>
        cases ht
        exact hmem
      | call hp => exact hold (by rw [hp]; exact ht)
      | abandon hp => exact hold (by rw [hp]; exact ht)
      | returns hp => exact hold (by rw [hp]; exact ht)
      | runLoop => cases ht
      | endCoroutine => cases ht
      | endFunction => cases ht
      | _ => exact hold ht
    | none =>
      cases born_step hs hx' hx with
      | root hmem => cases ht; exact hmem
      | _ => cases ht
  nested t := by
    have hkeep : (s.threads t).stack.Pairwise (Inner s') := (h.nested t).imp fun hfg => inner_step hs hfg
    generalize hth : s'.threads t = th
    cases hth ▸ thread_step hs t with
    | same => exact hkeep
    | root => exact List.pairwise_singleton ..
    | toThread hnil =>
      rw [hnil]
      exact List.pairwise_singleton ..
    | ended hst =>
      rw [hst] at hkeep
      exact (List.pairwise_cons.1 hkeep).2
    | @handler f y l e hy hphase hkind htakes =>
      refine List.pairwise_cons.2 ⟨fun g hg => inner_step hs ?_, hkeep⟩
      cases e with
      | none =>
        rw [takes_none htakes] at hg
        exact absurd hg List.not_mem_nil
      | some e =>
        obtain ⟨rest, x, b, hst, hx, -⟩ := takes_some htakes
        have hinner := inner_of_takes hT hL hy hphase hkind hx
        have hnested := h.nested t
        rw [hst] at hg hnested
        obtain rfl | hg := List.mem_cons.1 hg
        · exact hinner
        · exact hinner.trans ((List.pairwise_cons.1 hnested).1 g hg)

/-! ### Functions under what a worker runs -/

/-- The worker of some object is running a coroutine that waits for the body. -/
def Guarded (s : State) (x : Body) : Prop := ∃ b ∈ x.above, ∃ m, s.worker m = some b

theorem worker_eq_some {m : ContextId} {b : BodyId} : s.worker m = some b ↔
    ∃ p y l, s.table m = some p ∧ s.pools p = some y ∧ y.current = some (b, l) := by
  simp only [State.worker, Option.bind_eq_bind, Option.bind_eq_some_iff, Option.map_eq_some_iff, Prod.exists,
    exists_and_right, exists_eq_right]
  constructor
  · rintro ⟨p, hp, y, hy, l, hl⟩
    exact ⟨p, y, l, hp, hy, hl⟩
  · rintro ⟨p, y, l, hp, hy, hl⟩
    exact ⟨p, hp, y, hy, l, hl⟩

/-- The worker of an object goes on with its coroutine, or has started one. -/
theorem worker_step (hs : step s a = some s') {m : ContextId} {b : BodyId} (h : s'.worker m = some b) :
    s.worker m = some b ∨ ∃ c, s.bodies b = some c ∧ c.phase = .queued := by
  obtain ⟨p, y', l, ht, hy', hcur⟩ := worker_eq_some.1 h
  have hold : ∀ {y : Pool}, s.pools p = some y → y.current = some (b, l) → s.worker m = some b := by
    intro y hy hcur
    obtain ht | ⟨hnone, -⟩ := table_step hs ht
    · exact worker_eq_some.2 ⟨p, y, l, ht, hy, hcur⟩
    · rw [hnone] at hy
      cases hy
  cases pool_step hs hy' with
  | same hy => exact .inl (hold hy hcur)
  | submitted hy => exact .inl (hold hy hcur)
  | made => cases hcur
  | took _ _ hc hphase =>
    cases hcur
    exact .inr ⟨_, hc, hphase⟩
  | released => cases hcur

/-- No body comes under a coroutine that a worker starts. -/
theorem guarded_step (hT : Tree s) (hs : step s a = some s') (hx : s.bodies i = some x) (habove : x'.above = x.above)
    (h : Guarded s' x') : Guarded s x := by
  obtain ⟨b, hb, m, hm⟩ := h
  rw [habove] at hb
  obtain hold | ⟨c, hc, hphase⟩ := worker_step hs hm
  · exact ⟨b, hb, m, hold⟩
  · obtain ⟨d, hd, hstarted⟩ := hT.above i x b hx hb
    cases hc.symm.trans hd
    exact absurd hphase hstarted

/-- The object whose worker waits for the body is the one that the body carries. -/
theorem Guarded.encloses (hP : Pools s) (hB : AllBear s) (hx : s.bodies i = some x) (h : Guarded s x) :
    Encloses s x := by
  obtain ⟨b, hb, m, hm⟩ := h
  obtain ⟨p, y, l, ht, hy, hcur⟩ := worker_eq_some.1 hm
  obtain ⟨z, hz, ho⟩ := hP.table m p ht
  cases hy.symm.trans hz
  have hsingle := (hB p y m i hy ho (.inr ⟨b, l, hcur, .inr ⟨x, hx, hb⟩⟩)).1 x hx
  exact ⟨b, hb, by rw [hsingle]; exact hm⟩

/-- What holds in the runs whose calls meet the condition. -/
structure Inv (s : State) : Prop where
  tree : Tree s
  pools : Pools s
  bears : AllBear s
  loops : Loops s
  threads : Threads s
  /-- a call of a function that `thread_handler` runs under what a worker runs goes to the loop of the function -/
  calls : ∀ b c h p x l e, s.bodies b = some c → c.kind = .coroutine (some h) p → s.bodies h = some x →
    x.kind = .handler l e → Guarded s x → c.phase = .onLoop l ∨ c.phase = .ended
  /-- the thread-local of its thread names this loop -/
  threadlocal : ∀ i x l e t, s.bodies i = some x → x.kind = .handler l e → x.phase.thread? = some t → Guarded s x →
    (s.threads t).threadlocal = some { mainEventLoop := l, mainEventLoopPid := s.pid }
  free : ¬ Deadlocked s

theorem inv_init (pid : Nat) : Inv { pid := pid } where
  tree := tree_init pid
  pools := pools_init pid
  bears := by
    intro p y m i hp
    cases hp
  loops := loops_init pid
  threads := threads_init pid
  calls := by
    intro b c h p x l e hb
    cases hb
  threadlocal := by
    intro i x l e t hi
    cases hi
  free := by
    rintro ⟨p, y, b, l, a, c, hp, -⟩
    cases hp

/-- A function that `thread_handler` runs under what a worker runs finds its loop. -/
theorem Inv.acceptedBy (h : Inv s) {l : LoopId} {e : Option BodyId} {t : ThreadId} (hx : s.bodies i = some x)
    (hkind : x.kind = .handler l e) (hphase : x.phase = .onThread t) (hg : Guarded s x) :
    acceptedBy s (mainEventLoop s t false) = some l := by
  have htl := h.threadlocal i x l e t hx hkind (by rw [hphase]; rfl) hg
  obtain ⟨b, c, hc, hcphase, -⟩ := h.loops.handler i x l e hx hkind (by rw [hphase]; nofun)
  obtain ⟨k, hk, -, hopen⟩ := h.loops.runs b c l hc hcphase
  simp [AsyncSingleThread.acceptedBy, mainEventLoop, htl, State.isOpen, hk, hopen]

/-- **A call under what its worker runs finds a parent loop**, if it meets the condition. -/
theorem Inv.findsLoop (h : Inv s) {f b : BodyId} {force : Bool} {p : PoolId} {t : ThreadId} (hf : s.bodies f = some x)
    (hphase : x.phase = .onThread t) (hg : Guarded s x) (hC : FindsLoop s (.callAsync f b force p)) :
    force = false ∧ (AsyncSingleThread.acceptedBy s (mainEventLoop s t force)).isSome ∧
      ∀ l e, x.kind = .handler l e → AsyncSingleThread.acceptedBy s (mainEventLoop s t force) = some l := by
  simp only [FindsLoop, hf, hphase] at hC
  obtain ⟨rfl, hother⟩ := hC (hg.encloses h.pools h.bears hf)
  refine ⟨rfl, ?_, fun l e hkind => h.acceptedBy hf hkind hphase hg⟩
  cases hkind : x.kind with
  | handler l e =>
    rw [h.acceptedBy hf hkind hphase hg]
    rfl
  | root => exact hother (by rw [hkind]; rfl)
  | toThread => exact hother (by rw [hkind]; rfl)
  | coroutine c p => exact hother (by rw [hkind]; rfl)

theorem Inv.calls_step (h : Inv s) (hC : FindsLoop s a) (hs : step s a = some s') {b g : BodyId} {c' y' : Body}
    {p : Option PoolId} {l : LoopId} {e : Option BodyId} (hc' : s'.bodies b = some c')
    (hkind : c'.kind = .coroutine (some g) p) (hy' : s'.bodies g = some y') (hhandler : y'.kind = .handler l e)
    (hg : Guarded s' y') : c'.phase = .onLoop l ∨ c'.phase = .ended := by
  have hcaller : ∀ {y : Body}, s.bodies g = some y → y.kind = .handler l e ∧ Guarded s y := by
    intro y hy
    obtain ⟨z, hz, hto⟩ := body_step hs hy
    cases hy'.symm.trans hz
    exact ⟨by rw [← hto.kind, hhandler], guarded_step h.tree hs hy hto.above hg⟩
  cases hc : s.bodies b with
  | some c =>
    obtain ⟨z, hz, hto⟩ := body_step hs hc
    cases hc'.symm.trans hz
    have hk : c.kind = .coroutine (some g) p := by rw [← hto.kind, hkind]
    obtain ⟨y, hy, -⟩ := h.tree.caller b c g p hc hk
    obtain ⟨hh, hguarded⟩ := hcaller hy
    have hold := h.calls b c g p y l e hc hk hy hh hguarded
    cases hto with
    | start hp => rw [hp] at hold; exact absurd hold (by simp)
    | call hp => rw [hp] at hold; exact absurd hold (by simp)
    | abandon hp => rw [hp] at hold; exact absurd hold (by simp)
    | runLoop _ _ hp => rw [hp] at hold; exact absurd hold (by simp)
    | returns hp => rw [hp] at hold; exact absurd hold (by simp)
    | endCoroutine => exact .inr rfl
    | endFunction => exact .inr rfl
    | _ => exact hold
  | none =>
    cases born_step hs hc' hc with
    | onParent hf hphase hloop =>
      cases hkind
      obtain ⟨hh, hguarded⟩ := hcaller hf
      rw [(h.findsLoop hf hphase hguarded hC).2.2 l e hh] at hloop
      cases hloop
      exact .inl rfl
    | inPool hf hphase hloop =>
      cases hkind
      obtain ⟨hh, hguarded⟩ := hcaller hf
      rw [(h.findsLoop hf hphase hguarded hC).2.2 l e hh] at hloop
      cases hloop
    | _ => cases hkind

/-- A function that a thread starts leaves the thread-local as the functions on the stack need it. -/
theorem Inv.threadlocal_start (h : Inv s) {f : BodyId} {y : Body} {l l' : LoopId} {e e' : Option BodyId} {t : ThreadId}
    (hy : s.bodies f = some y) (hphase : y.phase = .queued) (hkind : y.kind = .handler l e)
    (htakes : takes s t e = true) (hx : s.bodies i = some x) (hhandler : x.kind = .handler l' e')
    (ht : x.phase.thread? = some t) (hg : Guarded s x) :
    l' = l := by
  have hmem := h.threads.on i x t hx ht
  cases e with
  | none =>
    rw [takes_none htakes] at hmem
    exact absurd hmem List.not_mem_nil
  | some g =>
    obtain ⟨rest, w, b, hst, hw, hwphase⟩ := takes_some htakes
    obtain ⟨b', c, hc, hcphase, -, hcaller⟩ := h.loops.handler f y l _ hy hkind (by rw [hphase]; nofun)
    obtain ⟨p, hp⟩ := hcaller g rfl
    have hsame : ∀ {l'' : LoopId} {e'' : Option BodyId}, w.kind = .handler l'' e'' → Guarded s w → l'' = l := by
      intro l'' e'' hk hgw
      obtain hl | hl := h.calls b' c g p w l'' e'' hc hp hw hk hgw
      · rw [hcphase] at hl
        cases hl
        rfl
      · rw [hcphase] at hl
        cases hl
    have hnested := h.threads.nested t
    rw [hst] at hmem hnested
    obtain rfl | hmem := List.mem_cons.1 hmem
    · cases hx.symm.trans hw
      exact hsame hhandler hg
    · -- the function that waits is above, and has the same thread-local
      obtain ⟨w', x', hw', hx', hk, hsub⟩ := (List.pairwise_cons.1 hnested).1 i hmem
      cases hw.symm.trans hw'
      cases hx.symm.trans hx'
      obtain ⟨d, hd, m, hm⟩ := hg
      have hgw : Guarded s w := ⟨d, hsub d hd, m, hm⟩
      cases hkw : w.kind with
      | handler l'' e'' =>
        have htl := h.threadlocal g w l'' e'' t hw hkw (by rw [hwphase]; rfl) hgw
        rw [h.threadlocal i x l' e' t hx hhandler ht ⟨d, hd, m, hm⟩] at htl
        cases htl
        exact hsame hkw hgw
      | root => rw [hkw] at hk; cases hk
      | toThread => rw [hkw] at hk; cases hk
      | coroutine => rw [hkw] at hk; cases hk

theorem Inv.threadlocal_step (h : Inv s) (hs : step s a = some s') {l : LoopId} {e : Option BodyId} {t : ThreadId}
    (hx' : s'.bodies i = some x') (hkind : x'.kind = .handler l e) (ht : x'.phase.thread? = some t)
    (hg : Guarded s' x') :
    (s'.threads t).threadlocal = some { mainEventLoop := l, mainEventLoopPid := s'.pid } := by
  rw [pid_step hs]
  cases hx : s.bodies i with
  | some x =>
    obtain ⟨y, hy, hto⟩ := body_step hs hx
    cases hx'.symm.trans hy
    have hk : x.kind = .handler l e := by rw [← hto.kind, hkind]
    have hguarded := guarded_step h.tree hs hx hto.above hg
    have hold : x.phase.thread? = some t →
        (s'.threads t).threadlocal = some { mainEventLoop := l, mainEventLoopPid := s.pid } := by
      intro ht
      have htl := h.threadlocal i x l e t hx hk ht hguarded
      generalize hth : s'.threads t = th
      cases hth ▸ thread_step hs t with
      | handler hf hphase hkind' htakes =>
        rw [h.threadlocal_start hf hphase hkind' htakes hx hk ht hguarded]
      | _ => exact htl
    cases hto with
    | start _ _ _ htl =>
      cases ht
      exact htl l e hk
    | call hp => exact hold (by rw [hp]; exact ht)
    | abandon hp => exact hold (by rw [hp]; exact ht)
    | returns hp => exact hold (by rw [hp]; exact ht)
    | runLoop => cases ht
    | endCoroutine => cases ht
    | endFunction => cases ht
    | _ => exact hold ht
  | none =>
    cases born_step hs hx' hx with
    | handler => cases ht
    | _ => cases hkind

theorem Inv.free_step (h : Inv s) (hC : FindsLoop s a) (hs : step s a = some s') : ¬ Deadlocked s' := by
  rintro ⟨p, y', b, l, i, c', hy', hcur, hi, hc', hb⟩
  have hqueued : ∀ {y : Pool}, s.pools p = some y → i ∈ y.queue → ∃ c, s.bodies i = some c ∧ b ∈ c.above := by
    intro y hy hmem
    obtain ⟨c, f, hc, -⟩ := h.pools.queue p y i hy hmem
    obtain ⟨z, hz, hto⟩ := body_step hs hc
    cases hc'.symm.trans hz
    exact ⟨c, hc, hto.above ▸ hb⟩
  have hold : ∀ {y : Pool}, s.pools p = some y → y.current = some (b, l) → i ∈ y.queue → False := by
    intro y hy hcur hmem
    obtain ⟨c, hc, hb⟩ := hqueued hy hmem
    exact h.free ⟨p, y, b, l, i, c, hy, hcur, hmem, hc, hb⟩
  cases pool_step hs hy' with
  | same hy => exact hold hy hcur hi
  | made => cases hcur
  | released => cases hcur
  | @took _ y b _ c hy hq hc hphase =>
    cases hcur
    obtain ⟨d, hd, hmem⟩ := hqueued hy (by rw [hq]; exact List.mem_cons_of_mem _ hi)
    obtain ⟨w, hw, hstarted⟩ := h.tree.above i d b hd hmem
    cases hc.symm.trans hw
    exact absurd hphase hstarted
  | submitted hy hf hphase _ hi' hloop _ ht =>
    obtain hmem | hmem := List.mem_append.1 hi
    · exact hold hy hcur hmem
    · -- the call that is submitted, under the coroutine that the worker is running
      obtain rfl := List.mem_singleton.1 hmem
      cases hi'.symm.trans hc'
      obtain rfl | hb := List.mem_cons.1 hb
      · obtain ⟨d, hd, hdphase⟩ := h.pools.current p _ b l hy hcur
        cases hf.symm.trans hd
        rw [hphase] at hdphase
        exact absurd hdphase (by simp)
      · have hg : Guarded s _ := ⟨b, hb, _, worker_eq_some.2 ⟨p, _, l, ht, hy, hcur⟩⟩
        have hfound := (h.findsLoop hf hphase hg hC).2.1
        rw [hloop] at hfound
        cases hfound

/-- **The step lemma.** -/
theorem inv_step (h : Inv s) (hC : FindsLoop s a) (hs : step s a = some s') : Inv s' where
  tree := tree_step h.tree hs
  pools := pools_step h.pools hs
  bears := allBear_step h.tree h.pools h.bears hs
  loops := loops_step h.loops hs
  threads := threads_step h.tree h.loops h.threads hs
  calls _ _ _ _ _ _ _ := h.calls_step hC hs
  threadlocal _ _ _ _ _ := h.threadlocal_step hs
  free := h.free_step hC hs

/-- A call that breaks the condition is submitted to the worker that runs a coroutine which waits for it. -/
theorem deadlocked_of_not_findsLoop (hC : ¬ FindsLoop s a) (hs : step s a = some s') : Deadlocked s' := by
  unfold FindsLoop at hC
  split at hC
  · next f b force p =>
    split at hC
    · next x hx =>
      split at hC
      · next t hphase =>
        simp only [Classical.not_imp] at hC
        obtain ⟨⟨d, hd, hworker⟩, hnot⟩ := hC
        obtain ⟨m, hm, hworker⟩ := Option.bind_eq_some_iff.1 hworker
        obtain ⟨q, y, l, ht, hy, hcur⟩ := worker_eq_some.1 hworker
        have hnone : AsyncSingleThread.acceptedBy s (mainEventLoop s t force) = none := by
          cases force with
          | true => rfl
          | false =>
            by_contra hsome
            exact hnot ⟨rfl, fun _ => Option.isSome_iff_ne_none.2 hsome⟩
        cases stepTo_of_step hs with
        | callParent hf hphase' _ hloop =>
          cases hx.symm.trans hf
          cases hphase.symm.trans hphase'
          rw [hnone] at hloop
          cases hloop
        | callTable hf _ _ _ hm' ht' hy' =>
          cases hx.symm.trans hf
          cases hm.symm.trans hm'
          cases ht.symm.trans ht'
          cases hy.symm.trans hy'
          refine ⟨q, { y with queue := y.queue ++ [b] }, d, l, b, called f x (some q) .queued, ?_, hcur, ?_,
            bodies_setBody_self .., ?_⟩
          · rw [State.pools_setPool, if_pos rfl]
          · exact List.mem_append_right _ (List.mem_cons_self ..)
          · exact List.mem_cons_of_mem _ hd
        | callNew hf _ _ _ hm' ht' =>
          cases hx.symm.trans hf
          cases hm.symm.trans hm'
          rw [ht'] at ht
          cases ht
        | callOwn hf _ _ _ hm' =>
          cases hx.symm.trans hf
          rw [hm'] at hm
          cases hm
      · exact absurd trivial hC
    · exact absurd trivial hC
  · exact absurd trivial hC

/-! ### The exact condition -/

/-- **No call waits for its own worker**, in exactly those runs whose calls under a coroutine that their worker is
running have no `force_new_loop` and, in a thread of `asyncio.to_thread`, still find an open loop in its
thread-local. -/
theorem noDeadlock_iff_findsLoop {pid : Nat} {as : List Action} {s : State}
    (hrun : machine.run { pid := pid } as = some s) :
    machine.Along (fun _ _ s' => ¬ Deadlocked s') { pid := pid } as ↔ machine.Meets FindsLoop { pid := pid } as := by
  refine machine.along_iff_meets (K := Inv) ?_ ?_ (inv_init pid) hrun
  · intro s a s' h hC hs
    have h' := inv_step h hC hs
    exact ⟨h'.free, h'⟩
  · intro s a s' _ hC hs
    exact not_not_intro (deadlocked_of_not_findsLoop hC hs)

/-- A function enters the object 5 and calls a coroutine, whose function runs on the first thread. -/
def entered : List Action :=
  [.root 0 0, .enter 0 5, .callAsync 0 1 false 0, .runLoop 0 0, .callSync 1 2 true, .start 2 0]

/-- The nested call goes to the loop that the worker is running. -/
def nested : List Action :=
  entered ++ [.callAsync 2 3 false 1, .endCoroutine 3, .returnAsync 2, .endFunction 2, .resume 1 2 true,
    .endCoroutine 1, .closeLoop 0, .release 0, .returnAsync 0, .exit 0 5, .endFunction 0]

theorem noDeadlock_nested : machine.Along (fun _ _ s' => ¬ Deadlocked s') { pid := 1 } nested :=
  (noDeadlock_iff_findsLoop (s := (machine.run { pid := 1 } nested).get rfl) rfl).2 (by decide)

/-- A nested call with `force_new_loop`, and one from a thread of `asyncio.to_thread`, wait for their own worker. -/
theorem deadlocked_of_forced :
    (∃ s, machine.run { pid := 1 } (entered ++ [.callAsync 2 3 true 1]) = some s ∧ Deadlocked s) ∧
    ∃ s, machine.run { pid := 1 } [.root 0 0, .enter 0 5, .callAsync 0 1 false 0, .runLoop 0 0, .toThread 1 2,
      .start 2 1, .callAsync 2 3 false 1] = some s ∧ Deadlocked s :=
  ⟨⟨_, rfl, 0, _, 1, 0, 3, _, rfl, rfl, by decide, rfl, by decide⟩,
    ⟨_, rfl, 0, _, 1, 0, 3, _, rfl, rfl, by decide, rfl, by decide⟩⟩

end Asgiref.AsyncSingleThread
