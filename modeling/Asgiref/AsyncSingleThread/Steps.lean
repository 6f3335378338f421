import Asgiref.AsyncSingleThread.Model

/-!
What one step does to each component of a state, for the invariants: to the bodies that exist (`body_step`), with
the new ones (`born_step`), to the loops (`runs_step`), the threads (`thread_step`), the pools (`pool_step`), the table
(`table_step`) and the tokens (`token_step`).
-/

namespace Asgiref.AsyncSingleThread

open Asgiref.Python Asgiref.Lib

variable {s s' : State} {a : Action} {i : BodyId} {x x' : Body}

/-! ### Bodies -/

/-- The body `j` is there, and the bodies that wait for it are `i`, whose body is `x`, and those that wait for `i`. -/
def Under (s : State) (i : BodyId) (x : Body) (j : BodyId) : Prop :=
  ∃ y, s.bodies j = some y ∧ y.above = i :: x.above

/-- The coroutine `b` is a task of the open loop `l`. -/
def Runs (s : State) (l : LoopId) (b : BodyId) : Prop :=
  ∃ k, s.loops l = some k ∧ b ∈ k.tasks ∧ k.isClosed = false

/-- What a step to the state `s'` makes of the body `i`. -/
inductive BodyTo (s s' : State) (i : BodyId) (x : Body) : Action → Body → Prop where
  | same {a : Action} : BodyTo s s' i x a x
  | enter {m} : x.single = none → BodyTo s s' i x (.enter i m) { x with single := some m }
  | reset {m k} : s.tokens m = some k → k.body = i → k.used = false →
      BodyTo s s' i x (.exit i m) { x with single := none }
  | callSync {f ts} : Under s' i x f → BodyTo s s' i x (.callSync i f ts) { x with awaiting := f :: x.awaiting }
  | toThread {f} : Under s' i x f → BodyTo s s' i x (.toThread i f) { x with awaiting := f :: x.awaiting }
  | start {t} : x.phase = .queued → (∀ c p, x.kind ≠ .coroutine c p) → i ∈ (s'.threads t).stack →
      (∀ l h, x.kind = .handler l h →
        (s'.threads t).threadlocal = some { mainEventLoop := l, mainEventLoopPid := s.pid }) →
      BodyTo s s' i x (.start i t) { x with phase := .onThread t }
  | call {b f p t} : x.phase = .onThread t → Under s' i x b →
      BodyTo s s' i x (.callAsync i b f p) { x with phase := .blocked t b }
  | abandon {t} : x.phase = .onThread t → BodyTo s s' i x (.abandon i) { x with phase := .abandoned t }
  | runLoop {p l y rest} : s.pools p = some y → y.queue = i :: rest → x.phase = .queued → Runs s' l i →
      BodyTo s s' i x (.runLoop p l) { x with phase := .onLoop l }
  | endCoroutine {l} : x.phase = .onLoop l → x.awaiting = [] → x.stranded = false →
      BodyTo s s' i x (.endCoroutine i) { x with phase := .ended }
  | returns {t b y} : x.phase = .blocked t b → s.bodies b = some y → y.phase = .ended →
      BodyTo s s' i x (.returnAsync i) { x with phase := .onThread t, single := restore y.single x.single }
  | endFunction {t} : x.phase = .onThread t → BodyTo s s' i x (.endFunction i) { x with phase := .ended }
  | resume {f d y o} : s.bodies f = some y → f ∈ x.awaiting → y.phase = .ended →
      o = x.single ∨ o = restore y.single x.single →
      BodyTo s s' i x (.resume i f d) { x with awaiting := x.awaiting.erase f, single := o }
  | strand {f y l} : x.phase = .onLoop l → s.bodies f = some y → f ∈ x.awaiting → y.phase = .ended →
      BodyTo s s' i x (.strand i f) { x with awaiting := x.awaiting.erase f, stranded := true }

theorem BodyTo.kind (h : BodyTo s s' i x a x') : x'.kind = x.kind := by
  cases h <;> rfl

theorem BodyTo.above (h : BodyTo s s' i x a x') : x'.above = x.above := by
  cases h <;> rfl

theorem BodyTo.not_queued (h : BodyTo s s' i x a x') (hx : x.phase ≠ .queued) : x'.phase ≠ .queued := by
  cases h <;> first | exact hx | nofun

/-- A body that did not exist before the step to `s'`. -/
inductive Born (s s' : State) : Action → BodyId → Body → Prop where
  | root {f t} : f ∈ (s'.threads t).stack →
      Born s s' (.root f t) f { kind := .root, above := [], phase := .onThread t }
  | rootLoop {b l} : Runs s' l b →
      Born s s' (.rootLoop b l) b { kind := .coroutine none none, above := [], phase := .onLoop l }
  | handler {b f ts c caller p l} : s.bodies b = some c → c.kind = .coroutine caller p → c.phase = .onLoop l →
      s'.bodies b = some { c with awaiting := f :: c.awaiting } →
      Born s s' (.callSync b f ts) f (awaited b c (.handler l (if ts then caller else none)))
  | toThread {b f c l} : s.bodies b = some c → c.phase = .onLoop l →
      Born s s' (.toThread b f) f (awaited b c .toThread)
  | onParent {f : BodyId} {i : BodyId} {force p y t l} : s.bodies f = some y → y.phase = .onThread t →
      acceptedBy s (mainEventLoop s t force) = some l → Runs s' l i →
      Born s s' (.callAsync f i force p) i (called f y none (.onLoop l))
  | inPool {f : BodyId} {i : BodyId} {force p q y t} : s.bodies f = some y → y.phase = .onThread t →
      acceptedBy s (mainEventLoop s t force) = none →
      Born s s' (.callAsync f i force p) i (called f y (some q) .queued)

theorem Born.awaiting (h : Born s s' a i x) : x.awaiting = [] := by
  cases h <;> rfl

theorem Born.stranded (h : Born s s' a i x) : x.stranded = false := by
  cases h <;> rfl

theorem bodies_setBody_self (s : State) (i : BodyId) (x : Body) : (s.setBody i x).bodies i = some x := by
  rw [State.bodies_setBody, if_pos rfl]

/-- A new body changes no old one. -/
theorem bodies_setBody_new {j : BodyId} {y : Body} (hx : s.bodies i = some x) (hj : s.bodies j = none) :
    (s.setBody j y).bodies i = some x := by
  rw [State.bodies_setBody, if_neg (by rintro rfl; rw [hj] at hx; cases hx), hx]

theorem mem_stack_start (s : State) (f : BodyId) (y : Body) (t : ThreadId) (tl : Option ThreadLocal) :
    f ∈ ((start s f y t tl).threads t).stack := by
  rw [start, State.threads_setThread, if_pos rfl]
  exact List.mem_cons_self ..

theorem runs_setLoop (s : State) (l : LoopId) (b : BodyId) : Runs (s.setLoop l { tasks := [b] }) l b :=
  ⟨_, by rw [State.loops_setLoop, if_pos rfl], List.mem_cons_self .., rfl⟩

/-- The body `j` goes on. -/
theorem bodyTo_setBody {u : State} {j : BodyId} {y z : Body} (hx : s.bodies i = some x) (hu : u.bodies i = some x)
    (hj : s.bodies j = some y) (hz : j = i → y = x → BodyTo s s' i x a z) :
    ∃ x', (u.setBody j z).bodies i = some x' ∧ BodyTo s s' i x a x' := by
  rw [State.bodies_setBody]
  by_cases hij : i = j
  · subst hij
    cases hj.symm.trans hx
    exact ⟨z, if_pos rfl, hz rfl rfl⟩
  · exact ⟨x, by rw [if_neg hij, hu], .same⟩

/-- The function `f` calls the new coroutine `b`. -/
theorem bodyTo_call {f b : BodyId} {y : Body} {pool : Option PoolId} {phase : Phase} {t : ThreadId}
    (hx : s.bodies i = some x) (hf : s.bodies f = some y) (hb : s.bodies b = none)
    (hbodies : s'.bodies = ((s.goTo f y (.blocked t b)).setBody b (called f y pool phase)).bodies)
    (hz : f = i → y = x → Under s' i x b → BodyTo s s' i x a { x with phase := .blocked t b }) :
    ∃ x', s'.bodies i = some x' ∧ BodyTo s s' i x a x' := by
  have hib : i ≠ b := by
    rintro rfl
    rw [hb] at hx
    cases hx
  rw [hbodies, State.bodies_setBody, if_neg hib]
  refine bodyTo_setBody hx hx hf ?_
  rintro rfl rfl
  exact hz rfl rfl ⟨called f y pool phase, by rw [hbodies, bodies_setBody_self], rfl⟩

/-- The coroutine `b` awaits the new function `f`. -/
theorem bodyTo_await {b f : BodyId} {c : Body} {k : Kind} (hx : s.bodies i = some x) (hb : s.bodies b = some c)
    (hf : s.bodies f = none) (hs' : s' = (s.setBody f (awaited b c k)).setBody b { c with awaiting := f :: c.awaiting })
    (hz : b = i → c = x → Under s' i x f → BodyTo s s' i x a { x with awaiting := f :: x.awaiting }) :
    ∃ x', s'.bodies i = some x' ∧ BodyTo s s' i x a x' := by
  rw [congrArg State.bodies hs']
  refine bodyTo_setBody hx (bodies_setBody_new hx hf) hb ?_
  rintro rfl rfl
  refine hz rfl rfl ⟨awaited b c k, ?_, rfl⟩
  have hfb : f ≠ b := by
    rintro rfl
    rw [hf] at hb
    cases hb
  rw [hs', State.bodies_setBody, if_neg hfb, bodies_setBody_self]

theorem body_step (hs : step s a = some s') (hx : s.bodies i = some x) :
    ∃ x', s'.bodies i = some x' ∧ BodyTo s s' i x a x' := by
  cases stepTo_of_step hs with
  | entered => exact ⟨x, hx, .same⟩
  | notEntered => exact ⟨x, hx, .same⟩
  | pop => exact ⟨x, hx, .same⟩
  | closeLoop => exact ⟨x, hx, .same⟩
  | release => exact ⟨x, hx, .same⟩
  | root hf => exact ⟨x, bodies_setBody_new hx hf, .same⟩
  | rootLoop hb => exact ⟨x, bodies_setBody_new hx hb, .same⟩
  | enter hy hnone => exact bodyTo_setBody hx hx hy (by rintro rfl rfl; exact .enter hnone)
  | reset hy hk hb hu => exact bodyTo_setBody hx hx hy (by rintro rfl rfl; exact .reset hk hb hu)
  | resume hc hy hf hended ho => exact bodyTo_setBody hx hx hc (by rintro rfl rfl; exact .resume hy hf hended ho)
  | strand hc hy hphase hf hended => exact bodyTo_setBody hx hx hc (by rintro rfl rfl; exact .strand hphase hy hf hended)
  | callSync hc _ _ hf => exact bodyTo_await hx hc hf rfl (by rintro rfl rfl hu; exact .callSync hu)
  | toThread hc _ hf => exact bodyTo_await hx hc hf rfl (by rintro rfl rfl hu; exact .toThread hu)
  | startHandler hy hphase hkind =>
    refine bodyTo_setBody hx hx hy ?_
    rintro rfl rfl
    refine .start hphase (by rw [hkind]; nofun) (mem_stack_start ..) fun l h hk => ?_
    cases hkind.symm.trans hk
    rw [start, State.threads_setThread, if_pos rfl]
  | startThread hy hphase hkind =>
    refine bodyTo_setBody hx hx hy ?_
    rintro rfl rfl
    exact .start hphase (by rw [hkind]; nofun) (mem_stack_start ..) (by rw [hkind]; nofun)
  | callParent hf hphase ha => exact bodyTo_call hx hf ha rfl (by rintro rfl rfl hu; exact .call hphase hu)
  | callTable hf hphase ha => exact bodyTo_call hx hf ha rfl (by rintro rfl rfl hu; exact .call hphase hu)
  | callNew hf hphase ha => exact bodyTo_call hx hf ha rfl (by rintro rfl rfl hu; exact .call hphase hu)
  | callOwn hf hphase ha => exact bodyTo_call hx hf ha rfl (by rintro rfl rfl hu; exact .call hphase hu)
  | abandon hf hphase => exact bodyTo_setBody hx hx hf (by rintro rfl rfl; exact .abandon hphase)
  | runLoop hy _ hq hc hphase =>
    refine bodyTo_setBody hx hx hc ?_
    rintro rfl rfl
    exact .runLoop hy hq hphase (runs_setLoop ..)
  | endCoroutine hc hphase hnil hfree =>
    exact bodyTo_setBody hx hx hc (by rintro rfl rfl; exact .endCoroutine hphase hnil hfree)
  | returnAsync hf hphase hy hended =>
    exact bodyTo_setBody hx hx hf (by rintro rfl rfl; exact .returns hphase hy hended)
  | endFunction hf hphase => exact bodyTo_setBody hx hx hf (by rintro rfl rfl; exact .endFunction hphase)

/-- A body is new by a call, or because the user starts code. -/
theorem born_step (hs : step s a = some s') (hx' : s'.bodies i = some x') (hx : s.bodies i = none) :
    Born s s' a i x' := by
  have hsame : s.bodies i ≠ some x' := by
    rw [hx]
    nofun
  have hnot : ∀ {j : BodyId} {y z : Body}, s.bodies j = some y → (s.setBody j z).bodies i ≠ some x' := by
    intro j y z hj h
    rw [State.bodies_setBody] at h
    split at h
    · subst i
      rw [hx] at hj
      cases hj
    · exact hsame h
  have hset : ∀ {j : BodyId} {y : Body} {P : Prop}, (j = i → y = x' → P) → (s.setBody j y).bodies i = some x' → P := by
    intro j y P hP h
    rw [State.bodies_setBody] at h
    split at h
    · exact hP (Eq.symm ‹_›) (Option.some.inj h)
    · exact absurd h hsame
  have hset₂ : ∀ {j k : BodyId} {y z w : Body} {P : Prop}, s.bodies k = some w → (j = i → y = x' → P) →
      (((s.setBody j y).setBody k z).bodies i = some x' ∨ ((s.setBody k z).setBody j y).bodies i = some x') → P := by
    intro j k y z w P hk hP h
    have hik : i ≠ k := by
      rintro rfl
      rw [hx] at hk
      cases hk
    obtain h | h := h
    · rw [State.bodies_setBody, if_neg hik] at h
      exact hset hP h
    · rw [State.bodies_setBody] at h
      split at h
      · exact hP (Eq.symm ‹_›) (Option.some.inj h)
      · exact absurd h (hnot hk)
  cases stepTo_of_step hs with
  | entered => exact absurd hx' hsame
  | notEntered => exact absurd hx' hsame
  | pop => exact absurd hx' hsame
  | closeLoop => exact absurd hx' hsame
  | release => exact absurd hx' hsame
  | root =>
    refine hset ?_ hx'
    rintro rfl rfl
    exact .root (by rw [State.threads_setThread, if_pos rfl]; exact List.mem_cons_self ..)
  | rootLoop =>
    refine hset ?_ hx'
    rintro rfl rfl
    exact .rootLoop (runs_setLoop ..)
  | callSync hc hkind hphase =>
    refine hset₂ hc ?_ (.inl hx')
    rintro rfl rfl
    exact .handler hc hkind hphase (bodies_setBody_self ..)
  | toThread hc hphase => exact hset₂ hc (by rintro rfl rfl; exact .toThread hc hphase) (.inl hx')
  | callParent hf hphase _ hloop hk =>
    refine hset₂ hf ?_ (.inr hx')
    rintro rfl rfl
    refine .onParent hf hphase hloop ⟨_, by rw [State.loops_setLoop, if_pos rfl], List.mem_cons_self .., ?_⟩
    simpa [State.isOpen, hk] using isOpen_of_accepted hloop
  | callTable hf hphase _ hloop => exact hset₂ hf (by rintro rfl rfl; exact .inPool hf hphase hloop) (.inr hx')
  | callNew hf hphase _ hloop => exact hset₂ hf (by rintro rfl rfl; exact .inPool hf hphase hloop) (.inr hx')
  | callOwn hf hphase _ hloop => exact hset₂ hf (by rintro rfl rfl; exact .inPool hf hphase hloop) (.inr hx')
  | enter hy => exact absurd hx' (hnot hy)
  | reset hy => exact absurd hx' (hnot hy)
  | resume hc => exact absurd hx' (hnot hc)
  | strand hc => exact absurd hx' (hnot hc)
  | startHandler hy => exact absurd hx' (hnot hy)
  | startThread hy => exact absurd hx' (hnot hy)
  | abandon hf => exact absurd hx' (hnot hf)
  | runLoop _ _ _ hc => exact absurd hx' (hnot hc)
  | endCoroutine hc => exact absurd hx' (hnot hc)
  | returnAsync hf => exact absurd hx' (hnot hf)
  | endFunction hf => exact absurd hx' (hnot hf)

/-! ### Loops and threads -/

/-- A coroutine that has not ended keeps its loop open. -/
theorem runs_step (hs : step s a = some s') {l : LoopId} (h : Runs s l i) :
    Runs s' l i ∨ ∃ c, s'.bodies i = some c ∧ c.phase = .ended := by
  obtain ⟨k, hl, hi, hopen⟩ := h
  have hset : ∀ {u : State} {m : LoopId} {n : Loop}, u.loops = s.loops → (m = l → i ∈ n.tasks ∧ n.isClosed = false) →
      Runs (u.setLoop m n) l i := by
    intro u m n hu hn
    unfold Runs
    rw [State.loops_setLoop, hu]
    by_cases hlm : l = m
    · exact ⟨n, if_pos hlm, hn hlm.symm⟩
    · exact ⟨k, by rw [if_neg hlm, hl], hi, hopen⟩
  have hfresh : ∀ {m : LoopId} {P : Prop}, s.loops m = none → m = l → P := by
    rintro m P hm rfl
    rw [hm] at hl
    cases hl
  cases stepTo_of_step hs with
  | rootLoop _ hm => exact .inl (hset rfl (hfresh hm))
  | runLoop _ _ _ _ _ hm => exact .inl (hset rfl (hfresh hm))
  | callParent _ _ _ _ hm =>
    refine .inl (hset rfl ?_)
    rintro rfl
    cases hl.symm.trans hm
    exact ⟨List.mem_cons_of_mem _ hi, hopen⟩
  | @endCoroutine b c _ _ _ _ _ _ hm =>
    by_cases hib : i = b
    · subst hib
      exact .inr ⟨{ c with phase := .ended }, bodies_setBody_self s i _, rfl⟩
    · refine .inl (hset rfl ?_)
      rintro rfl
      cases hl.symm.trans hm
      exact ⟨(List.mem_erase_of_ne hib).2 hi, hopen⟩
  | closeLoop hm hnil =>
    refine .inl (hset rfl ?_)
    rintro rfl
    cases hl.symm.trans hm
    rw [hnil] at hi
    exact absurd hi List.not_mem_nil
  | _ => exact .inl ⟨k, hl, hi, hopen⟩

/-- What a step to the state `s'` makes of the thread `t`. -/
inductive ThreadTo (s s' : State) (t : ThreadId) : Action → Thread → Prop where
  | same {a : Action} : ThreadTo s s' t a (s.threads t)
  | root {f} : (s.threads t).stack = [] → ThreadTo s s' t (.root f t) { s.threads t with stack := [f] }
  | handler {f y l h} : s.bodies f = some y → y.phase = .queued → y.kind = .handler l h → takes s t h = true →
      ThreadTo s s' t (.start f t) ⟨f :: (s.threads t).stack, some { mainEventLoop := l, mainEventLoopPid := s.pid }⟩
  | toThread {f} : (s.threads t).stack = [] →
      ThreadTo s s' t (.start f t) ⟨f :: (s.threads t).stack, (s.threads t).threadlocal⟩
  | ended {f rest c} : (s.threads t).stack = f :: rest → s'.bodies f = some c → c.phase = .ended →
      ThreadTo s s' t (.endFunction f) { s.threads t with stack := rest }

theorem thread_step (hs : step s a = some s') (t : ThreadId) : ThreadTo s s' t a (s'.threads t) := by
  have hset : ∀ {u : State} {v : ThreadId} {th : Thread}, u.threads = s.threads → (v = t → ThreadTo s s' t a th) →
      ThreadTo s s' t a ((u.setThread v th).threads t) := by
    intro u v th hu hth
    rw [State.threads_setThread, hu]
    by_cases htv : t = v
    · rw [if_pos htv]
      exact hth htv.symm
    · rw [if_neg htv]
      exact .same
  cases stepTo_of_step hs with
  | root _ hstack => exact hset rfl (by rintro rfl; exact .root hstack)
  | startHandler hy hphase hkind ht => exact hset rfl (by rintro rfl; exact .handler hy hphase hkind ht)
  | startThread _ _ _ hstack => exact hset rfl (by rintro rfl; exact .toThread hstack)
  | @endFunction f x u rest _ _ hstack =>
    refine hset rfl ?_
    rintro rfl
    exact .ended (c := { x with phase := .ended }) hstack (bodies_setBody_self s f _) rfl
  | _ => exact .same

theorem pid_step (hs : step s a = some s') : s'.pid = s.pid := by
  cases stepTo_of_step hs <;> rfl

/-! ### Pools -/

/-- What a step to the state `s'` leaves under the identity `p`. -/
inductive PoolTo (s s' : State) (p : PoolId) : Action → Pool → Prop where
  | same {a : Action} {x : Pool} : s.pools p = some x → (∀ l, a ≠ .runLoop p l) → PoolTo s s' p a x
  | submitted {f b force q} {x : Pool} {y t m} : s.pools p = some x → s.bodies f = some y → y.phase = .onThread t →
      s.bodies b = none → s'.bodies b = some (called f y (some p) .queued) →
      acceptedBy s (mainEventLoop s t force) = none → y.single = some m → s.table m = some p →
      PoolTo s s' p (.callAsync f b force q) { x with queue := x.queue ++ [b] }
  | made {f b force y} : s.pools p = none → s.bodies f = some y → s.bodies b = none →
      s'.bodies b = some (called f y (some p) .queued) →
      PoolTo s s' p (.callAsync f b force p) { owner := y.single, queue := [b] }
  | took {l} {x : Pool} {b rest c} : s.pools p = some x → x.queue = b :: rest → s.bodies b = some c →
      c.phase = .queued → s'.bodies b = some { c with phase := .onLoop l } →
      PoolTo s s' p (.runLoop p l) { x with current := some (b, l), queue := rest }
  | released {x : Pool} : s.pools p = some x → PoolTo s s' p (.release p) { x with current := none }

theorem pool_step (hs : step s a = some s') {p : PoolId} {y : Pool} (hp : s'.pools p = some y) : PoolTo s s' p a y := by
  have hset : ∀ {u : State} {q : PoolId} {z : Pool}, u.pools = s.pools → (q = p → z = y → PoolTo s s' p a y) →
      (q ≠ p → ∀ l, a ≠ .runLoop p l) → (u.setPool q z).pools p = some y → PoolTo s s' p a y := by
    intro u q z hu hz hne h
    rw [State.pools_setPool, hu] at h
    split at h
    · exact hz (Eq.symm ‹_›) (Option.some.inj h)
    · exact .same h (hne (Ne.symm ‹_›))
  cases stepTo_of_step hs with
  | callTable hf hphase hb hloop hm hq hy =>
    exact hset rfl (by rintro rfl rfl; exact .submitted hy hf hphase hb (bodies_setBody_self ..) hloop hm hq) nofun hp
  | callNew hf _ hb _ hm _ hq =>
    refine hset rfl ?_ nofun hp
    rintro rfl rfl
    rw [← hm]
    exact .made hq hf hb (bodies_setBody_self ..)
  | callOwn hf _ hb _ hm hq =>
    refine hset rfl ?_ nofun hp
    rintro rfl rfl
    rw [← hm]
    exact .made hq hf hb (bodies_setBody_self ..)
  | runLoop hx _ hq hc hphase =>
    refine hset rfl (by rintro rfl rfl; exact .took hx hq hc hphase (bodies_setBody_self ..)) (fun hne l h => ?_) hp
    cases h
    exact hne rfl
  | release hx => exact hset rfl (by rintro rfl rfl; exact .released hx) nofun hp
  | _ => exact .same hp nofun

/-- A pool stays, with its owner. -/
theorem pool_stays (hs : step s a = some s') {p : PoolId} {x : Pool} (hp : s.pools p = some x) :
    ∃ y, s'.pools p = some y ∧ y.owner = x.owner := by
  have hset : ∀ {u : State} {q : PoolId} {z : Pool}, u.pools = s.pools → (q = p → z.owner = x.owner) →
      ∃ y, (u.setPool q z).pools p = some y ∧ y.owner = x.owner := by
    intro u q z hu hz
    rw [State.pools_setPool, hu]
    by_cases hpq : p = q
    · exact ⟨z, if_pos hpq, hz hpq.symm⟩
    · exact ⟨x, by rw [if_neg hpq, hp], rfl⟩
  have hfresh : ∀ {q : PoolId} {P : Prop}, s.pools q = none → q = p → P := by
    rintro q P hq rfl
    rw [hq] at hp
    cases hp
  cases stepTo_of_step hs with
  | callTable _ _ _ _ _ _ hy => exact hset rfl (by rintro rfl; cases hp.symm.trans hy; rfl)
  | callNew _ _ _ _ _ _ hq => exact hset rfl (hfresh hq)
  | callOwn _ _ _ _ _ hq => exact hset rfl (hfresh hq)
  | runLoop hx => exact hset rfl (by rintro rfl; cases hp.symm.trans hx; rfl)
  | release hx => exact hset rfl (by rintro rfl; cases hp.symm.trans hx; rfl)
  | _ => exact ⟨x, hp, rfl⟩

/-- An entry of the table is old, or of a pool that was made for the object. -/
theorem table_step (hs : step s a = some s') {m : ContextId} {p : PoolId} (hm : s'.table m = some p) :
    s.table m = some p ∨ s.pools p = none ∧ ∃ b, s'.pools p = some { owner := some m, queue := [b] } := by
  have hpop : ∀ {n : ContextId}, (s.setTable n none).table m = some p → s.table m = some p := by
    intro n h
    rw [State.table_setTable] at h
    split at h
    · cases h
    · exact h
  cases stepTo_of_step hs with
  | pop => exact .inl (hpop hm)
  | reset => exact .inl (hpop hm)
  | @callNew f b force q x t n _ _ _ _ _ _ hq =>
    rw [State.table_setTable] at hm
    split at hm
    · cases hm
      subst m
      refine .inr ⟨hq, b, ?_⟩
      show (State.setPool _ p _).pools p = _
      rw [State.pools_setPool, if_pos rfl]
    · exact .inl hm
  | _ => exact .inl hm

/-- A token is old, perhaps used by now, or was set by a body that had no object. -/
theorem token_step (hs : step s a = some s') {m : ContextId} {k : Token} (hm : s'.tokens m = some k) :
    (∃ o, s.tokens m = some o ∧ o.body = k.body ∧ (k.used = false → o.used = false)) ∨
      ∃ x, s.bodies k.body = some x ∧ x.single = none := by
  cases stepTo_of_step hs with
  | enter hx hnone =>
    rw [State.tokens_setToken] at hm
    split at hm
    · cases hm
      exact .inr ⟨_, hx, hnone⟩
    · exact .inl ⟨k, hm, rfl, id⟩
  | reset _ hk =>
    rw [State.tokens_setToken] at hm
    split at hm
    · cases hm
      subst m
      exact .inl ⟨_, hk, rfl, nofun⟩
    · exact .inl ⟨k, hm, rfl, id⟩
  | _ => exact .inl ⟨k, hm, rfl, id⟩

end Asgiref.AsyncSingleThread
