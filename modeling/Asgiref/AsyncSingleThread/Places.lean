import Asgiref.AsyncSingleThread.Waiting

/-!
# Where the bodies are

Every body that has not ended is where something will take it on: on the stack of its thread, in a queue, or among the
tasks of its loop.

* `Stacks`: a function on a stack is called, at some depth, by the function below it;
* `Queues`: a coroutine that was not started is in the queue of its pool;
* `OwnLoop`, `IdleExit`: a call takes no loop but the one of its own `SyncToAsync` call, and `__exit__` finds a pool
  that has nothing to do;
* `Works`: in the runs of such steps a worker's loop runs nothing but what is under the worker's coroutine, and a pool
  with work is in the table;
* `Bounded`: there are finitely many bodies, threads in use, loops and pools.
-/

namespace Asgiref.AsyncSingleThread

open Asgiref.Python Asgiref.Lib

variable {s s' : State} {a : Action} {i : BodyId} {x x' : Body}

/-! ### Stacks -/

/-- On the stack of one thread, above the function `g`: under the coroutine that `g` is blocked in. -/
def Over (s : State) (f g : BodyId) : Prop :=
  ∃ x y t b, s.bodies f = some x ∧ s.bodies g = some y ∧ y.phase = .blocked t b ∧ b ∈ x.above ∧
    (∀ c ∈ y.above, c ∈ x.above) ∧ y.above.length + 2 ≤ x.above.length

structure Stacks (s : State) : Prop where
  on : ∀ t i, i ∈ (s.threads t).stack → ∃ x, s.bodies i = some x ∧ x.phase.thread? = some t
  nested : ∀ t, (s.threads t).stack.Pairwise (Over s)

theorem stacks_init (pid : Nat) : Stacks { pid := pid } := ⟨nofun, fun _ => .nil⟩

theorem Over.trans {f g h : BodyId} (h₁ : Over s f g) (h₂ : Over s g h) : Over s f h := by
  obtain ⟨x, y, -, -, hx, hy, -, -, hsub, hlen⟩ := h₁
  obtain ⟨y', z, t, b, hy', hz, hphase, hb, hsub', hlen'⟩ := h₂
  cases hy.symm.trans hy'
  exact ⟨x, z, t, b, hx, hz, hphase, hsub b hb, fun c hc => hsub c (hsub' c hc), by omega⟩

/-- A function that another one is above stays blocked. -/
theorem over_step (h : Ordered s) (hs : step s a = some s') {f g : BodyId} (hx : s.bodies f = some x)
    (hne : x.phase ≠ .ended) (hover : Over s f g) : Over s' f g := by
  obtain ⟨z, y, t, b, hz, hy, hphase, hb, hsub, hlen⟩ := hover
  cases hx.symm.trans hz
  obtain ⟨c, hc, hcne⟩ := not_ended_of_above h.waits h.tree hx hne hb
  obtain ⟨y', hy', hphase'⟩ := blocked_step hs hy hphase hc hcne
  obtain ⟨x', hx', hto⟩ := body_step hs hx
  obtain ⟨w, hw, hto'⟩ := body_step hs hy
  cases hy'.symm.trans hw
  have habove : x'.above = x.above := hto.above
  have habove' : y'.above = y.above := hto'.above
  refine ⟨x', y', t, b, hx', hy', hphase', ?_, ?_, ?_⟩
  · rw [habove]
    exact hb
  · rw [habove, habove']
    exact hsub
  · rw [habove, habove']
    exact hlen

/-- The function of the call whose coroutine awaits the handler. -/
theorem caller_of_handler (h : Ordered s) {f g : BodyId} {y : Body} {l : LoopId} (hy : s.bodies f = some y)
    (hkind : y.kind = .handler l (some g)) (hne : y.phase ≠ .ended) :
    ∃ b z t, s.bodies g = some z ∧ z.phase = .blocked t b ∧ y.above = b :: g :: z.above := by
  obtain ⟨b, c, hc, hphase, hf, hcaller⟩ := h.loops.handler f y l _ hy hkind hne
  obtain ⟨p, hp⟩ := hcaller g rfl
  obtain ⟨z, t, hz, hblocked⟩ := h.waits.caller b c g p hc hp (by rw [hphase]; nofun)
  obtain ⟨w, hw, habove⟩ := h.tree.awaiting b c f hc hf
  obtain ⟨z', hz', habove'⟩ := h.tree.caller b c g p hc hp
  cases hy.symm.trans hw
  cases hz.symm.trans hz'
  exact ⟨b, z, t, hz, hblocked, by rw [habove, habove']⟩

/-- The handler that a waiting thread starts. -/
theorem over_of_takes (h : Ordered s) {f g : BodyId} {y : Body} {l : LoopId} (hy : s.bodies f = some y)
    (hkind : y.kind = .handler l (some g)) (hne : y.phase ≠ .ended) : Over s f g := by
  obtain ⟨b, z, t, hz, hphase, habove⟩ := caller_of_handler h hy hkind hne
  refine ⟨y, z, t, b, hy, hz, hphase, ?_, fun c hc => ?_, ?_⟩
  · rw [habove]
    exact List.mem_cons_self ..
  · rw [habove]
    exact List.mem_cons_of_mem _ (List.mem_cons_of_mem _ hc)
  · simp only [habove, List.length_cons]
    omega

/-- A function stays on its thread until it ends. -/
theorem thread_keep (hs : step s a = some s') (hx : s.bodies i = some x) {t : ThreadId}
    (ht : x.phase.thread? = some t) :
    (∃ x', s'.bodies i = some x' ∧ x'.phase.thread? = some t) ∨ a = .endFunction i := by
  obtain ⟨x', hx', hto⟩ := body_step hs hx
  cases hto with
  | start hp => rw [hp] at ht; cases ht
  | runLoop _ _ hp => rw [hp] at ht; cases ht
  | endCoroutine hp => rw [hp] at ht; cases ht
  | call hp =>
    rw [hp] at ht
    exact .inl ⟨_, hx', ht⟩
  | abandon hp =>
    rw [hp] at ht
    exact .inl ⟨_, hx', ht⟩
  | returns hp =>
    rw [hp] at ht
    exact .inl ⟨_, hx', ht⟩
  | endFunction => exact .inr rfl
  | _ => exact .inl ⟨_, hx', ht⟩

theorem ne_ended_of_thread {t : ThreadId} (ht : x.phase.thread? = some t) : x.phase ≠ .ended := by
  intro hp
  rw [hp] at ht
  cases ht

/-- The thread on which a function has started. -/
theorem started_on (hs : step s a = some s') {f : BodyId} {t : ThreadId} (ha : a = .root f t ∨ a = .start f t) :
    ∃ x', s'.bodies f = some x' ∧ x'.phase.thread? = some t := by
  rcases ha with rfl | rfl
  · cases stepTo_of_step hs with
    | root => exact ⟨_, bodies_setBody_self .., rfl⟩
  · cases stepTo_of_step hs with
    | startHandler => exact ⟨_, bodies_setBody_self .., rfl⟩
    | startThread => exact ⟨_, bodies_setBody_self .., rfl⟩

/-- A function that ends leaves the stack. -/
theorem popped (hN : ∀ t, (s.threads t).stack.Pairwise (Over s)) (hs : step s (.endFunction i) = some s')
    (hx : s.bodies i = some x) {t : ThreadId} (ht : x.phase.thread? = some t) : i ∉ (s'.threads t).stack := by
  cases stepTo_of_step hs with
  | @endFunction f y u rest hy hphase hstack =>
    cases hx.symm.trans hy
    rw [hphase] at ht
    cases ht
    intro hi
    rw [State.threads_setThread, if_pos rfl] at hi
    have hnested := hN t
    rw [hstack] at hnested
    obtain ⟨-, z, u, b, -, hz, hblocked, -⟩ := (List.pairwise_cons.1 hnested).1 i hi
    cases hx.symm.trans hz
    rw [hphase] at hblocked
    cases hblocked

theorem stacks_step (hO : Ordered s) (h : Stacks s) (hs : step s a = some s') : Stacks s' where
  on t i hi := by
    have hold : i ∈ (s.threads t).stack → ∃ x', s'.bodies i = some x' ∧ x'.phase.thread? = some t := by
      intro hmem
      obtain ⟨x, hx, ht⟩ := h.on t i hmem
      rcases thread_keep hs hx ht with hkeep | rfl
      · exact hkeep
      · exact absurd hi (popped h.nested hs hx ht)
    generalize hth : s'.threads t = th at hi
    cases hth ▸ thread_step hs t with
    | same => exact hold hi
    | root =>
      obtain rfl := List.mem_singleton.1 hi
      exact started_on hs (.inl rfl)
    | handler =>
      rcases List.mem_cons.1 hi with rfl | hi
      · exact started_on hs (.inr rfl)
      · exact hold hi
    | toThread =>
      rcases List.mem_cons.1 hi with rfl | hi
      · exact started_on hs (.inr rfl)
      · exact hold hi
    | ended hst => exact hold (by rw [hst]; exact List.mem_cons_of_mem _ hi)
  nested t := by
    have hkeep : (s.threads t).stack.Pairwise (Over s') := by
      refine (h.nested t).imp_of_mem fun {f g} hf _ hover => ?_
      obtain ⟨x, hx, ht⟩ := h.on t f hf
      exact over_step hO hs hx (ne_ended_of_thread ht) hover
    generalize hth : s'.threads t = th
    cases hth ▸ thread_step hs t with
    | same => exact hkeep
    | root => exact List.pairwise_singleton ..
    | toThread hnil =>
      rw [hnil]
      exact List.pairwise_singleton ..
    | ended hst =>
      rw [hst] at hkeep
      exact (List.pairwise_cons.1 hkeep).2
    | @handler f y l e hy hphase hkind htakes =>
      have hne : y.phase ≠ .ended := by
        rw [hphase]
        nofun
      refine List.pairwise_cons.2 ⟨fun g hg => over_step hO hs hy hne ?_, hkeep⟩
      cases e with
      | none =>
        rw [takes_none htakes] at hg
        exact absurd hg List.not_mem_nil
      | some e =>
        obtain ⟨rest, x, b, hst, -, -⟩ := takes_some htakes
        have hover := over_of_takes hO hy hkind hne
        have hnested := h.nested t
        rw [hst] at hg hnested
        rcases List.mem_cons.1 hg with rfl | hg
        · exact hover
        · exact hover.trans ((List.pairwise_cons.1 hnested).1 g hg)

/-! ### Queues -/

/-- A body that was not started: a function that some thread is to take, or a coroutine in the queue of its pool. -/
def Queues (s : State) : Prop :=
  ∀ i x, s.bodies i = some x → x.phase = .queued → x.kind.isAwaited = true ∨
    ∃ f p y, x.kind = .coroutine (some f) (some p) ∧ s.pools p = some y ∧ i ∈ y.queue

theorem queues_init (pid : Nat) : Queues { pid := pid } := by
  intro i x hx
  cases hx

/-- The coroutine of a call without a parent loop goes into the queue of its pool. -/
theorem enqueued {f b : BodyId} {force : Bool} {p : PoolId} (hs : step s (.callAsync f b force p) = some s')
    (hx' : s'.bodies b = some x') (hphase : x'.phase = .queued) :
    ∃ q y, x'.kind = .coroutine (some f) (some q) ∧ s'.pools q = some y ∧ b ∈ y.queue := by
  have hbody : ∀ {u v : State} {y : Body}, u.bodies b = some x' → u.bodies = (v.setBody b y).bodies → x' = y := by
    intro u v y hu huv
    rw [huv, bodies_setBody_self] at hu
    exact (Option.some.inj hu).symm
  cases stepTo_of_step hs with
  | callParent =>
    obtain rfl := hbody hx' rfl
    cases hphase
  | @callTable _ _ _ _ x t m q y =>
    obtain rfl := hbody hx' rfl
    refine ⟨q, { y with queue := y.queue ++ [b] }, rfl, ?_, List.mem_append_right _ (List.mem_cons_self ..)⟩
    rw [State.pools_setPool, if_pos rfl]
  | @callNew _ _ _ _ x t m =>
    obtain rfl := hbody hx' rfl
    refine ⟨p, { owner := some m, queue := [b] }, rfl, ?_, List.mem_cons_self ..⟩
    show (State.setPool _ p _).pools p = _
    rw [State.pools_setPool, if_pos rfl]
  | callOwn =>
    obtain rfl := hbody hx' rfl
    refine ⟨p, { owner := none, queue := [b] }, rfl, ?_, List.mem_cons_self ..⟩
    rw [State.pools_setPool, if_pos rfl]

/-- A coroutine stays in the queue until the worker takes it. -/
theorem queue_keep (hs : step s a = some s') {p : PoolId} {y : Pool} (hy : s.pools p = some y) (hi : i ∈ y.queue)
    (hx' : s'.bodies i = some x') (hphase : x'.phase = .queued) : ∃ z, s'.pools p = some z ∧ i ∈ z.queue := by
  obtain ⟨z, hz, -⟩ := pool_stays hs hy
  refine ⟨z, hz, ?_⟩
  cases pool_step hs hz with
  | same hy' =>
    cases hy.symm.trans hy'
    exact hi
  | submitted hy' =>
    cases hy.symm.trans hy'
    exact List.mem_append_left _ hi
  | made hnone =>
    rw [hnone] at hy
    cases hy
  | took hy' hq _ _ hb =>
    cases hy.symm.trans hy'
    rw [hq] at hi
    rcases List.mem_cons.1 hi with rfl | hi
    · cases hx'.symm.trans hb
      cases hphase
    · exact hi
  | released hy' =>
    cases hy.symm.trans hy'
    exact hi

theorem queues_step (h : Queues s) (hs : step s a = some s') : Queues s' := by
  intro i x' hx' hphase
  cases hx : s.bodies i with
  | some x =>
    obtain ⟨z, hz, hto⟩ := body_step hs hx
    cases hx'.symm.trans hz
    have hqueued : x.phase = .queued := by
      by_contra hne
      exact hto.not_queued hne hphase
    rw [hto.kind]
    rcases h i x hx hqueued with hkind | ⟨f, p, y, hkind, hy, hi⟩
    · exact .inl hkind
    · obtain ⟨z, hz, hiz⟩ := queue_keep hs hy hi hx' hphase
      exact .inr ⟨f, p, z, hkind, hz, hiz⟩
  | none =>
    cases born_step hs hx' hx with
    | root => cases hphase
    | rootLoop => cases hphase
    | onParent => cases hphase
    | handler => exact .inl rfl
    | toThread => exact .inl rfl
    | inPool =>
      obtain ⟨q, y, hkind, hy, hi⟩ := enqueued hs hx' hphase
      exact .inr ⟨_, q, y, hkind, hy, hi⟩

/-! ### Loops and workers -/

/-- `thread_handler` runs the function for the loop. -/
def Kind.isHandlerOf (l : LoopId) : Kind → Bool
  | .handler m _ => decide (m = l)
  | _ => false

/-- A call takes no other loop than that of the `SyncToAsync` call whose function makes it: the thread-local that it
reads was not left behind by an earlier function. -/
def OwnLoop (s : State) : Action → Prop
  | .callAsync f _ force _ => ∀ x ∈ s.bodies f, ∀ t ∈ x.phase.thread?, ∀ l ∈ acceptedBy s (mainEventLoop s t force),
      x.kind.isHandlerOf l = true
  | _ => True

instance (s : State) : (a : Action) → Decidable (OwnLoop s a)
  | .callAsync f _ force _ => inferInstanceAs (Decidable (∀ x ∈ s.bodies f, ∀ t ∈ x.phase.thread?,
      ∀ l ∈ acceptedBy s (mainEventLoop s t force), x.kind.isHandlerOf l = true))
  | .root _ _ | .rootLoop _ _ | .enter _ _ | .exit _ _ | .callSync _ _ _ | .toThread _ _ | .start _ _ | .abandon _
  | .runLoop _ _
  | .endCoroutine _ | .closeLoop _ | .release _ | .returnAsync _ | .endFunction _ | .resume _ _ _
  | .strand _ _ => isTrue trivial

/-- The pool that `__exit__` shuts down has nothing to do, so that it does not wait. -/
def IdleExit (s : State) : Action → Prop
  | .exit _ m => ∀ p ∈ s.table m, ∀ y ∈ s.pools p, y.queue = [] ∧ y.current = none
  | _ => True

instance (s : State) (a : Action) : Decidable (IdleExit s a) := by
  unfold IdleExit
  split <;> infer_instance

/-- What the loops and the pools have to do. -/
structure Works (s : State) : Prop where
  task : ∀ l k c, s.loops l = some k → c ∈ k.tasks → ∃ y, s.bodies c = some y ∧ y.phase = .onLoop l
  nodup : ∀ l k, s.loops l = some k → k.tasks.Nodup
  /-- the loop of a worker runs what is under its coroutine -/
  worker : ∀ p y b l, s.pools p = some y → y.current = some (b, l) →
    ∃ k, s.loops l = some k ∧ ∀ c ∈ k.tasks, c = b ∨ ∃ z, s.bodies c = some z ∧ b ∈ z.above
  inTable : ∀ p y m, s.pools p = some y → y.owner = some m → y.queue ≠ [] ∨ y.current ≠ none → s.table m = some p
  /-- a pool without an owner has one coroutine only -/
  own : ∀ p y, s.pools p = some y → y.owner = none → y.queue = [] ∨ y.current = none ∧ ∃ b, y.queue = [b]

theorem works_init (pid : Nat) : Works { pid := pid } := ⟨nofun, nofun, nofun, nofun, nofun⟩

/-- A coroutine stays on its loop until it ends. -/
theorem onLoop_keep (hs : step s a = some s') (hx : s.bodies i = some x) {l : LoopId} (hphase : x.phase = .onLoop l) :
    (∃ x', s'.bodies i = some x' ∧ x'.phase = .onLoop l) ∨ a = .endCoroutine i := by
  obtain ⟨x', hx', hto⟩ := body_step hs hx
  cases hto with
  | start hp => rw [hp] at hphase; cases hphase
  | call hp => rw [hp] at hphase; cases hphase
  | abandon hp => rw [hp] at hphase; cases hphase
  | runLoop _ _ hp => rw [hp] at hphase; cases hphase
  | returns hp => rw [hp] at hphase; cases hphase
  | endFunction hp => rw [hp] at hphase; cases hphase
  | endCoroutine => exact .inr rfl
  | _ => exact .inl ⟨_, hx', hphase⟩

/-- What a step to the state `s'` makes of the loop `l`. -/
inductive LoopTo (s s' : State) (l : LoopId) : Action → Loop → Prop where
  | same {a : Action} {k : Loop} : s.loops l = some k →
      (∀ b, a = .endCoroutine b → ∃ c, s.bodies b = some c ∧ c.phase ≠ .onLoop l) → LoopTo s s' l a k
  | fresh {a : Action} {b : BodyId} {c : Body} : s.loops l = none → s'.bodies b = some c → c.phase = .onLoop l →
      LoopTo s s' l a { tasks := [b] }
  | called {f b : BodyId} {force p x t} {k : Loop} : s.loops l = some k → s.bodies f = some x → x.phase = .onThread t →
      s.bodies b = none → acceptedBy s (mainEventLoop s t force) = some l →
      s'.bodies b = some (called f x none (.onLoop l)) →
      LoopTo s s' l (.callAsync f b force p) { k with tasks := b :: k.tasks }
  | ended {b : BodyId} {k : Loop} : s.loops l = some k →
      LoopTo s s' l (.endCoroutine b) { k with tasks := k.tasks.erase b }
  | closed {k : Loop} : s.loops l = some k → k.tasks = [] → LoopTo s s' l (.closeLoop l) { k with isClosed := true }

theorem loop_step (hs : step s a = some s') {l : LoopId} {k : Loop} (hl : s'.loops l = some k) : LoopTo s s' l a k := by
  have hset : ∀ {u : State} {m : LoopId} {n : Loop}, u.loops = s.loops → (∀ b, a ≠ .endCoroutine b) →
      (m = l → n = k → LoopTo s s' l a k) → (u.setLoop m n).loops l = some k → LoopTo s s' l a k := by
    intro u m n hu hne hn h
    rw [State.loops_setLoop, hu] at h
    split at h
    · exact hn (Eq.symm ‹_›) (Option.some.inj h)
    · exact .same h fun b hb => absurd hb (hne b)
  cases stepTo_of_step hs with
  | rootLoop _ hm => exact hset rfl nofun (by rintro rfl rfl; exact .fresh hm (bodies_setBody_self ..) rfl) hl
  | runLoop _ _ _ _ _ hm => exact hset rfl nofun (by rintro rfl rfl; exact .fresh hm (bodies_setBody_self ..) rfl) hl
  | callParent hf hphase hb hloop hm =>
    exact hset rfl nofun (by rintro rfl rfl; exact .called hm hf hphase hb hloop (bodies_setBody_self ..)) hl
  | closeLoop hm hnil => exact hset rfl nofun (by rintro rfl rfl; exact .closed hm hnil) hl
  | @endCoroutine b c m n hc hphase _ _ hm =>
    rw [State.loops_setLoop] at hl
    split at hl
    · next hlm =>
      subst hlm
      cases hl
      exact .ended hm
    · next hlm =>
      refine .same hl fun d hd => ?_
      cases hd
      refine ⟨c, hc, ?_⟩
      rw [hphase]
      intro h
      cases h
      exact hlm rfl
  | _ => exact .same hl nofun

/-- A loop stays. -/
theorem loop_stays (hs : step s a = some s') {l : LoopId} {k : Loop} (hl : s.loops l = some k) :
    ∃ k', s'.loops l = some k' := by
  have hset : ∀ {u : State} {m : LoopId} {n : Loop}, u.loops = s.loops → ∃ k', (u.setLoop m n).loops l = some k' := by
    intro u m n hu
    rw [State.loops_setLoop, hu]
    by_cases hlm : l = m
    · exact ⟨n, if_pos hlm⟩
    · exact ⟨k, by rw [if_neg hlm, hl]⟩
  cases stepTo_of_step hs with
  | rootLoop => exact hset rfl
  | runLoop => exact hset rfl
  | callParent => exact hset rfl
  | closeLoop => exact hset rfl
  | endCoroutine => exact hset rfl
  | _ => exact ⟨k, hl⟩

theorem task_step (h : Works s) (hs : step s a = some s') {l : LoopId} {k : Loop} {c : BodyId}
    (hl : s'.loops l = some k) (hc : c ∈ k.tasks) : ∃ y, s'.bodies c = some y ∧ y.phase = .onLoop l := by
  have hold : ∀ {k₀ : Loop}, s.loops l = some k₀ → c ∈ k₀.tasks →
      (a = .endCoroutine c → ∃ y, s.bodies c = some y ∧ y.phase ≠ .onLoop l) →
      ∃ y, s'.bodies c = some y ∧ y.phase = .onLoop l := by
    intro k₀ hk₀ hmem hend
    obtain ⟨y, hy, hphase⟩ := h.task l k₀ c hk₀ hmem
    rcases onLoop_keep hs hy hphase with hkeep | ha
    · exact hkeep
    · obtain ⟨z, hz, hne⟩ := hend ha
      cases hy.symm.trans hz
      exact absurd hphase hne
  cases loop_step hs hl with
  | same hk₀ hend => exact hold hk₀ hc (hend c)
  | fresh _ hb hphase =>
    obtain rfl := List.mem_singleton.1 hc
    exact ⟨_, hb, hphase⟩
  | called hk₀ _ _ _ _ hb =>
    rcases List.mem_cons.1 hc with rfl | hc
    · exact ⟨_, hb, rfl⟩
    · exact hold hk₀ hc nofun
  | @ended b k₀ hk₀ =>
    have hmem := List.mem_of_mem_erase hc
    refine hold hk₀ hmem fun ha => ?_
    cases ha
    exact absurd hc (h.nodup l k₀ hk₀).not_mem_erase
  | closed hk₀ hnil =>
    have hc₀ : c ∈ (_ : Loop).tasks := hc
    rw [hnil] at hc₀
    exact absurd hc₀ List.not_mem_nil

theorem nodup_step (h : Works s) (hs : step s a = some s') {l : LoopId} {k : Loop} (hl : s'.loops l = some k) :
    k.tasks.Nodup := by
  cases loop_step hs hl with
  | same hk₀ => exact h.nodup l k hk₀
  | fresh => exact List.nodup_singleton _
  | @called f b force p x t k₀ hk₀ _ _ hb =>
    refine List.nodup_cons.2 ⟨fun hmem => ?_, h.nodup l k₀ hk₀⟩
    obtain ⟨y, hy, -⟩ := h.task l k₀ b hk₀ hmem
    rw [hb] at hy
    cases hy
  | ended hk₀ => exact (h.nodup l _ hk₀).erase _
  | closed hk₀ =>
    have hnodup := h.nodup l _ hk₀
    exact hnodup

theorem Kind.eq_handler {k : Kind} {l : LoopId} (h : k.isHandlerOf l = true) : ∃ e, k = .handler l e := by
  cases k with
  | handler m e =>
    obtain rfl := of_decide_eq_true h
    exact ⟨e, rfl⟩
  | _ => cases h

/-- A coroutine that comes onto the loop of a worker is under the worker's coroutine. -/
theorem worker_keep (hO : Ordered s) (h : Works s) (hC : OwnLoop s a) (hs : step s a = some s') {p : PoolId} {y : Pool}
    {b : BodyId} {l : LoopId} (hy : s.pools p = some y) (hcur : y.current = some (b, l)) :
    ∃ k, s'.loops l = some k ∧ ∀ c ∈ k.tasks, c = b ∨ ∃ z, s'.bodies c = some z ∧ b ∈ z.above := by
  obtain ⟨k, hk, hunder⟩ := h.worker p y b l hy hcur
  obtain ⟨k', hk'⟩ := loop_stays hs hk
  refine ⟨k', hk', fun c hc => ?_⟩
  have hold : c ∈ k.tasks → c = b ∨ ∃ z, s'.bodies c = some z ∧ b ∈ z.above := by
    intro hmem
    rcases hunder c hmem with rfl | ⟨z, hz, hb⟩
    · exact .inl rfl
    · obtain ⟨z', hz', hto⟩ := body_step hs hz
      exact .inr ⟨z', hz', hto.above ▸ hb⟩
  cases loop_step hs hk' with
  | same hk₀ =>
    cases hk.symm.trans hk₀
    exact hold hc
  | fresh hnone =>
    rw [hnone] at hk
    cases hk
  | @called f c' force q x t k₀ hk₀ hf hphase hnone hloop hc' =>
    cases hk.symm.trans hk₀
    rcases List.mem_cons.1 hc with rfl | hc
    · -- its caller is the function of a call on this loop
      have hown := hC x hf t (by rw [hphase]; rfl) l hloop
      obtain ⟨e, hkind⟩ := Kind.eq_handler hown
      obtain ⟨d, w, hw, hdphase, hfd, -⟩ := hO.loops.handler f x l e hf hkind (by rw [hphase]; nofun)
      obtain ⟨n, hn, hd, -⟩ := hO.loops.runs d w l hw hdphase
      cases hk.symm.trans hn
      obtain ⟨v, hv, habove⟩ := hO.tree.awaiting d w f hw hfd
      cases hf.symm.trans hv
      have hbx : b ∈ x.above := by
        rw [habove]
        rcases hunder d hd with rfl | ⟨z, hz, hb⟩
        · exact List.mem_cons_self ..
        · cases hw.symm.trans hz
          exact List.mem_cons_of_mem _ hb
      exact .inr ⟨_, hc', List.mem_cons_of_mem _ hbx⟩
    · exact hold hc
  | ended hk₀ =>
    cases hk.symm.trans hk₀
    exact hold (List.mem_of_mem_erase hc)
  | closed hk₀ =>
    cases hk.symm.trans hk₀
    exact hold hc

/-- The worker starts a coroutine on a loop of its own. -/
theorem worker_took (hs : step s a = some s') {p : PoolId} {b : BodyId} {l : LoopId} (ha : a = .runLoop p l)
    {y : Pool} (hy : s'.pools p = some y) (hcur : y.current = some (b, l)) : s'.loops l = some { tasks := [b] } := by
  subst ha
  cases stepTo_of_step hs with
  | runLoop =>
    have hp : (State.setPool _ p _).pools p = some y := hy
    rw [State.pools_setPool, if_pos rfl] at hp
    cases hp
    cases hcur
    rw [State.loops_setLoop, if_pos rfl]

/-- An entry of the table goes with an `__exit__` only. -/
theorem table_keep (hs : step s a = some s') {m : ContextId} {p : PoolId} (hm : s.table m = some p) :
    s'.table m = some p ∨ ∃ j, a = .exit j m := by
  have hpop : ∀ {n : ContextId} {j : BodyId}, a = .exit j n →
      (s.setTable n none).table m = some p ∨ ∃ j, a = .exit j m := by
    rintro n j rfl
    by_cases hmn : m = n
    · subst hmn
      exact .inr ⟨j, rfl⟩
    · exact .inl (by rw [State.table_setTable, if_neg hmn, hm])
  cases stepTo_of_step hs with
  | pop => exact hpop rfl
  | reset => exact hpop rfl
  | @callNew f b force q x t n _ _ _ _ _ hn =>
    refine .inl ?_
    have hmn : m ≠ n := by
      rintro rfl
      rw [hn] at hm
      cases hm
    rw [State.table_setTable, if_neg hmn]
    exact hm
  | _ => exact .inl hm

/-- A new pool with an owner is in the table. -/
theorem table_made {f b : BodyId} {force : Bool} {p : PoolId} (hs : step s (.callAsync f b force p) = some s')
    (hnone : s.pools p = none) {y : Pool} {m : ContextId} (hy : s'.pools p = some y) (ho : y.owner = some m) :
    s'.table m = some p := by
  cases stepTo_of_step hs with
  | callParent => exact absurd (hnone.symm.trans hy) nofun
  | @callTable _ _ _ _ x t n q z _ _ _ _ _ _ hq =>
    rw [State.pools_setPool] at hy
    split at hy
    · next hpq =>
      rw [← hpq, hnone] at hq
      cases hq
    · exact absurd (hnone.symm.trans hy) nofun
  | callNew =>
    have hp : (State.setPool _ p _).pools p = some y := hy
    rw [State.pools_setPool, if_pos rfl] at hp
    cases hp
    cases ho
    rw [State.table_setTable, if_pos rfl]
  | callOwn =>
    rw [State.pools_setPool, if_pos rfl] at hy
    cases hy
    cases ho

theorem works_step (hO : Ordered s) (h : Works s) (hC : OwnLoop s a) (hE : IdleExit s a) (hs : step s a = some s') :
    Works s' where
  task _ _ _ := task_step h hs
  nodup _ _ := nodup_step h hs
  worker p y' b l hy' hcur := by
    cases hp : pool_step hs hy' with
    | same hy => exact worker_keep hO h hC hs hy hcur
    | submitted hy => exact worker_keep hO h hC hs hy hcur
    | made => cases hcur
    | released => cases hcur
    | took =>
      cases hcur
      have hl := worker_took hs rfl hy' rfl
      refine ⟨_, hl, fun c hc => ?_⟩
      exact .inl (List.mem_singleton.1 hc)
  inTable p y' m hy' ho hbusy := by
    have hold : ∀ {y : Pool}, s.pools p = some y → y.owner = some m → y.queue ≠ [] ∨ y.current ≠ none →
        s'.table m = some p := by
      intro y hy ho hbusy
      have hm := h.inTable p y m hy ho hbusy
      rcases table_keep hs hm with hkeep | ⟨j, rfl⟩
      · exact hkeep
      · obtain ⟨hqueue, hcur⟩ := hE p hm y hy
        rcases hbusy with hne | hne
        · exact absurd hqueue hne
        · exact absurd hcur hne
    cases pool_step hs hy' with
    | same hy => exact hold hy ho hbusy
    | @submitted f b force q y z t n hy _ _ _ _ _ _ hn =>
      obtain ⟨w, hw, how⟩ := hO.pools.table n p hn
      cases hy.symm.trans hw
      have hmn : n = m := Option.some.inj (how.symm.trans ho)
      subst hmn
      rcases table_keep hs hn with hkeep | ⟨j, ha⟩
      · exact hkeep
      · cases ha
    | made hnone => exact table_made hs hnone hy' ho
    | took hy hq => exact hold hy ho (.inl (by rw [hq]; nofun))
    | released hy =>
      refine hold hy ho (hbusy.imp_right fun hcur => ?_)
      exact absurd rfl hcur
  own p y' hy' ho := by
    cases pool_step hs hy' with
    | same hy => exact h.own p y' hy ho
    | @submitted f b force q y z t n hy _ _ _ _ _ _ hn =>
      obtain ⟨w, hw, how⟩ := hO.pools.table n p hn
      cases hy.symm.trans hw
      rw [show y.owner = none from ho] at how
      cases how
    | made => exact .inr ⟨rfl, _, rfl⟩
    | took hy hq =>
      rcases h.own p _ hy ho with hnil | ⟨-, c, hone⟩
      · rw [hq] at hnil
        cases hnil
      · rw [hq] at hone
        cases hone
        exact .inl rfl
    | @released y hy =>
      rcases h.own p y hy ho with hnil | ⟨-, c, hone⟩
      · exact .inl hnil
      · exact .inr ⟨rfl, c, hone⟩

/-! ### Finitely many -/

/-- All that there is has a number below `n`. -/
structure Bounded (n : Nat) (s : State) : Prop where
  bodies : ∀ i : Nat, n ≤ i → s.bodies i = none
  threads : ∀ t : Nat, n ≤ t → (s.threads t).stack = []
  loops : ∀ l : Nat, n ≤ l → s.loops l = none
  pools : ∀ p : Nat, n ≤ p → s.pools p = none

theorem bounded_init (pid : Nat) : Bounded 0 { pid := pid } :=
  ⟨fun _ _ => rfl, fun _ _ => rfl, fun _ _ => rfl, fun _ _ => rfl⟩

/-- A bound for what the action makes or takes into use. -/
def Action.bound : Action → Nat
  | .root f t => max f t + 1
  | .rootLoop b l => max b l + 1
  | .callSync _ f _ | .toThread _ f => f + 1
  | .start _ t => t + 1
  | .callAsync _ b _ p => max b p + 1
  | .runLoop _ l => l + 1
  | _ => 0

theorem bound_born (hs : step s a = some s') {j : Nat} (hx' : s'.bodies j = some x') (hx : s.bodies j = none) :
    j < a.bound := by
  cases born_step hs hx' hx with
  | root => simp only [Action.bound]; omega
  | rootLoop => simp only [Action.bound]; omega
  | handler => simp only [Action.bound]; omega
  | toThread => simp only [Action.bound]; omega
  | onParent => simp only [Action.bound]; omega
  | inPool => simp only [Action.bound]; omega

theorem bound_stack (hs : step s a = some s') {t : Nat} (ht : (s.threads t).stack = [])
    (hne : (s'.threads t).stack ≠ []) : t < a.bound := by
  generalize hth : s'.threads t = th at hne
  cases hth ▸ thread_step hs t with
  | same => exact absurd ht hne
  | root => simp only [Action.bound]; omega
  | handler => simp only [Action.bound]; omega
  | toThread => simp only [Action.bound]; omega
  | ended hst =>
    rw [ht] at hst
    cases hst

theorem bound_loop (hs : step s a = some s') {l : Nat} (hl : s.loops l = none) (hne : s'.loops l ≠ none) :
    l < a.bound := by
  have hset : ∀ {u : State} {m : LoopId} {k : Loop}, u.loops = s.loops → (u.setLoop m k).loops l ≠ none → l = m := by
    intro u m k hu h
    rw [State.loops_setLoop, hu] at h
    by_contra hlm
    rw [if_neg hlm] at h
    exact h hl
  have hold : ∀ {m : LoopId} {k : Loop}, s.loops m = some k → l ≠ m := by
    rintro m k hm rfl
    rw [hl] at hm
    cases hm
  cases stepTo_of_step hs with
  | rootLoop =>
    obtain rfl := hset rfl hne
    simp only [Action.bound]
    omega
  | runLoop =>
    obtain rfl := hset rfl hne
    simp only [Action.bound]
    omega
  | callParent _ _ _ _ hm => exact absurd (hset rfl hne) (hold hm)
  | endCoroutine _ _ _ _ hm => exact absurd (hset rfl hne) (hold hm)
  | closeLoop hm => exact absurd (hset rfl hne) (hold hm)
  | _ => exact absurd hl hne

theorem bound_pool (hs : step s a = some s') {p : Nat} (hp : s.pools p = none) {y : Pool}
    (hy : s'.pools p = some y) : p < a.bound := by
  have hold : ∀ {z : Pool} {P : Prop}, s.pools p = some z → P := by
    intro z P hz
    rw [hp] at hz
    cases hz
  cases pool_step hs hy with
  | same hz => exact hold hz
  | submitted hz => exact hold hz
  | took hz => exact hold hz
  | released hz => exact hold hz
  | made => simp only [Action.bound]; omega

theorem bounded_step {n : Nat} (h : Bounded n s) (hs : step s a = some s') : Bounded (max n a.bound) s' where
  bodies i hi := by
    by_contra hne
    obtain ⟨x', hx'⟩ := Option.ne_none_iff_exists'.1 hne
    have hlt := bound_born hs hx' (h.bodies i (by omega))
    omega
  threads t ht := by
    by_contra hne
    have hlt := bound_stack hs (h.threads t (by omega)) hne
    omega
  loops l hl := by
    by_contra hne
    have hlt := bound_loop hs (h.loops l (by omega)) hne
    omega
  pools p hp := by
    by_contra hne
    obtain ⟨y, hy⟩ := Option.ne_none_iff_exists'.1 hne
    have hlt := bound_pool hs (h.pools p (by omega)) hy
    omega

end Asgiref.AsyncSingleThread
