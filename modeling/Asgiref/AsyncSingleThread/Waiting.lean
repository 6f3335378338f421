import Asgiref.AsyncSingleThread.Deadlock

/-!
# Bodies that wait

A call returns after what it has called, so that a body that has not ended keeps all bodies above it from ending.

* `Waits`: the function is blocked in the call whose coroutine has not ended, the coroutine awaits the function that has
  not ended;
* `not_ended_of_above`: nothing that waits for the body has ended;
* `Hangs`: a coroutine in the queue of a worker that runs a coroutine above it;
* `hangs_run`: it hangs in every state from there on.
-/

namespace Asgiref.AsyncSingleThread

open Asgiref.Python Asgiref.Lib

/-- A function that a coroutine awaits. -/
def Kind.isAwaited : Kind → Bool
  | .handler _ _ | .toThread => true
  | _ => false

/-- Code that no wrapped call has started. -/
def Kind.isRoot : Kind → Bool
  | .root | .coroutine none _ => true
  | _ => false

/-- What waits for a body that has not ended. -/
structure Waits (s : State) : Prop where
  caller : ∀ i x f p, s.bodies i = some x → x.kind = .coroutine (some f) p → x.phase ≠ .ended →
    ∃ y t, s.bodies f = some y ∧ y.phase = .blocked t i
  awaiter : ∀ i x, s.bodies i = some x → x.kind.isAwaited = true → x.phase ≠ .ended →
    ∃ b c l, s.bodies b = some c ∧ c.phase = .onLoop l ∧ i ∈ c.awaiting
  top : ∀ i x, s.bodies i = some x → x.kind.isRoot = true → x.above = []

variable {s s' : State} {a : Action} {i : BodyId} {x x' : Body}

theorem waits_init (pid : Nat) : Waits { pid := pid } := ⟨nofun, nofun, nofun⟩

/-- The function stays in its call until the coroutine has ended. -/
theorem blocked_step (hs : step s a = some s') {f : BodyId} {y : Body} {t : ThreadId} (hy : s.bodies f = some y)
    (hphase : y.phase = .blocked t i) (hx : s.bodies i = some x) (hne : x.phase ≠ .ended) :
    ∃ y', s'.bodies f = some y' ∧ y'.phase = .blocked t i := by
  obtain ⟨y', hy', hto⟩ := body_step hs hy
  refine ⟨y', hy', ?_⟩
  cases hto with
  | start hp => rw [hphase] at hp; cases hp
  | call hp => rw [hphase] at hp; cases hp
  | abandon hp => rw [hphase] at hp; cases hp
  | runLoop _ _ hp => rw [hphase] at hp; cases hp
  | endCoroutine hp => rw [hphase] at hp; cases hp
  | endFunction hp => rw [hphase] at hp; cases hp
  | returns hp hz hended =>
    rw [hphase] at hp
    cases hp
    cases hx.symm.trans hz
    exact absurd hended hne
  | _ => exact hphase

/-- The function that calls a coroutine is blocked. -/
theorem blocked_of_callAsync {f b : BodyId} {force : Bool} {p : PoolId}
    (hs : step s (.callAsync f b force p) = some s') :
    ∃ y t, s'.bodies f = some y ∧ y.phase = .blocked t b := by
  have hset : ∀ {u : State} {y c : Body} {t : ThreadId}, s.bodies f = some y → s.bodies b = none →
      u.bodies = ((s.goTo f y (.blocked t b)).setBody b c).bodies → ∃ y' t', u.bodies f = some y' ∧
        y'.phase = .blocked t' b := by
    intro u y c t hy hb hu
    have hfb : f ≠ b := by
      rintro rfl
      rw [hb] at hy
      cases hy
    refine ⟨{ y with phase := .blocked t b }, t, ?_, rfl⟩
    rw [hu, State.bodies_setBody, if_neg hfb]
    exact bodies_setBody_self s f _
  cases stepTo_of_step hs with
  | callParent hf _ hb => exact hset hf hb rfl
  | callTable hf _ hb => exact hset hf hb rfl
  | callNew hf _ hb => exact hset hf hb rfl
  | callOwn hf _ hb => exact hset hf hb rfl

theorem awaits_of_toThread {b f : BodyId} (hs : step s (.toThread b f) = some s') :
    ∃ c l, s'.bodies b = some c ∧ c.phase = .onLoop l ∧ f ∈ c.awaiting := by
  cases stepTo_of_step hs with
  | @toThread _ _ c l _ hphase => exact ⟨_, l, bodies_setBody_self .., hphase, List.mem_cons_self ..⟩

theorem waits_step (h : Waits s) (hs : step s a = some s') : Waits s' where
  caller i x' f p hx' hkind hne := by
    cases hx : s.bodies i with
    | some x =>
      obtain ⟨z, hz, hto⟩ := body_step hs hx
      cases hx'.symm.trans hz
      have hold := hto.not_ended hne
      obtain ⟨y, t, hy, hphase⟩ := h.caller i x f p hx (by rw [← hto.kind, hkind]) hold
      obtain ⟨y', hy', hphase'⟩ := blocked_step hs hy hphase hx hold
      exact ⟨y', t, hy', hphase'⟩
    | none =>
      cases born_step hs hx' hx with
      | onParent =>
        cases hkind
        exact blocked_of_callAsync hs
      | inPool =>
        cases hkind
        exact blocked_of_callAsync hs
      | _ => cases hkind
  awaiter i x' hx' hkind hne := by
    cases hx : s.bodies i with
    | some x =>
      obtain ⟨z, hz, hto⟩ := body_step hs hx
      cases hx'.symm.trans hz
      have hold := hto.not_ended hne
      obtain ⟨b, c, l, hc, hphase, hi⟩ := h.awaiter i x hx (by rw [← hto.kind, hkind]) hold
      obtain ⟨c', hc', hphase', hi', -⟩ := awaited_step hs hc hphase hi hx hold
      exact ⟨b, c', l, hc', hphase', hi'⟩
    | none =>
      cases born_step hs hx' hx with
      | @handler b f ts c caller p l _ _ hphase hc' => exact ⟨b, _, l, hc', hphase, List.mem_cons_self ..⟩
      | @toThread b =>
        obtain ⟨c, l, hc, hphase, hi⟩ := awaits_of_toThread hs
        exact ⟨b, c, l, hc, hphase, hi⟩
      | _ => cases hkind
  top i x' hx' hkind := by
    cases hx : s.bodies i with
    | some x =>
      obtain ⟨z, hz, hto⟩ := body_step hs hx
      cases hx'.symm.trans hz
      rw [hto.above]
      exact h.top i x hx (by rw [← hto.kind, hkind])
    | none =>
      cases born_step hs hx' hx with
      | root => rfl
      | rootLoop => rfl
      | _ => cases hkind

/-- What waits for the body has not ended either, and is right above it. -/
theorem Waits.parent (h : Waits s) (hT : Tree s) (hx : s.bodies i = some x) (hne : x.phase ≠ .ended) :
    x.above = [] ∨ ∃ f y, s.bodies f = some y ∧ y.phase ≠ .ended ∧ x.above = f :: y.above := by
  have hawaited : x.kind.isAwaited = true → ∃ f y, s.bodies f = some y ∧ y.phase ≠ .ended ∧ x.above = f :: y.above := by
    intro hkind
    obtain ⟨b, c, l, hc, hphase, hi⟩ := h.awaiter i x hx hkind hne
    obtain ⟨z, hz, habove⟩ := hT.awaiting b c i hc hi
    cases hx.symm.trans hz
    exact ⟨b, c, hc, by rw [hphase]; nofun, habove⟩
  cases hkind : x.kind with
  | root => exact .inl (h.top i x hx (by rw [hkind]; rfl))
  | handler l e => exact .inr (hawaited (by rw [hkind]; rfl))
  | toThread => exact .inr (hawaited (by rw [hkind]; rfl))
  | coroutine c p =>
    cases c with
    | none => exact .inl (h.top i x hx (by rw [hkind]; rfl))
    | some f =>
      obtain ⟨y, t, hy, hphase⟩ := h.caller i x f p hx hkind hne
      obtain ⟨z, hz, habove⟩ := hT.caller i x f p hx hkind
      cases hy.symm.trans hz
      exact .inr ⟨f, y, hy, by rw [hphase]; nofun, habove⟩

/-- **Nothing that waits for the body has ended.** -/
theorem not_ended_of_above (h : Waits s) (hT : Tree s) {b : BodyId} (hx : s.bodies i = some x) (hne : x.phase ≠ .ended)
    (hb : b ∈ x.above) : ∃ c, s.bodies b = some c ∧ c.phase ≠ .ended := by
  generalize habove : x.above = l at hb
  induction l generalizing i x with
  | nil => exact absurd hb List.not_mem_nil
  | cons g rest ih =>
    obtain hnil | ⟨f, y, hy, hney, hcons⟩ := h.parent hT hx hne
    · rw [habove] at hnil
      cases hnil
    · rw [habove] at hcons
      cases hcons
      obtain rfl | hb := List.mem_cons.1 hb
      · exact ⟨y, hy, hney⟩
      · exact ih hy hney rfl hb

/-! ### A call that waits for its own worker -/

/-- What holds in every run, of the calls and of the loops. -/
structure Ordered (s : State) : Prop where
  tree : Tree s
  pools : Pools s
  loops : Loops s
  waits : Waits s

theorem ordered_step (h : Ordered s) (hs : step s a = some s') : Ordered s' :=
  ⟨tree_step h.tree hs, pools_step h.pools hs, loops_step h.loops hs, waits_step h.waits hs⟩

/-- The coroutine `i` is in the queue of a worker, which runs the coroutine `b` above it on the loop `l`. -/
def Hangs (s : State) (p : PoolId) (b : BodyId) (l : LoopId) (i : BodyId) : Prop :=
  ∃ y c, s.pools p = some y ∧ y.current = some (b, l) ∧ i ∈ y.queue ∧ s.bodies i = some c ∧ b ∈ c.above

theorem release_closed {p : PoolId} (hs : step s (.release p) = some s') :
    ∃ y b l, s.pools p = some y ∧ y.current = some (b, l) ∧ s.isOpen l = false := by
  simp only [step, Option.bind_eq_bind, Option.bind_eq_some_iff] at hs
  obtain ⟨y, hy, ⟨b, l⟩, hcur, hs⟩ := hs
  split at hs
  · cases hs
  · next hopen => exact ⟨y, b, l, hy, hcur, Bool.eq_false_iff.2 hopen⟩

/-- The worker cannot be through with its loop, since the coroutine waits. -/
theorem hangs_step {p : PoolId} {b : BodyId} {l : LoopId} (h : Ordered s) (hh : Hangs s p b l i)
    (hs : step s a = some s') : Hangs s' p b l i := by
  obtain ⟨y, c, hy, hcur, hi, hc, hb⟩ := hh
  have hopen : s.isOpen l = true := by
    obtain ⟨d, f, hd, hphase, -⟩ := h.pools.queue p y i hy hi
    cases hc.symm.trans hd
    obtain ⟨e, he, hne⟩ := not_ended_of_above h.waits h.tree hc (by rw [hphase]; nofun) hb
    obtain ⟨e', he', hphase'⟩ := h.pools.current p y b l hy hcur
    cases he.symm.trans he'
    rcases hphase' with hphase' | hphase'
    · obtain ⟨k, hk, -, hnot⟩ := h.loops.runs b e l he hphase'
      simp only [State.isOpen, hk, hnot, Bool.not_false]
    · exact absurd hphase' hne
  obtain ⟨c', hc', hto⟩ := body_step hs hc
  have hpool : ∀ {z : Pool}, s'.pools p = some z → z.current = some (b, l) → i ∈ z.queue → Hangs s' p b l i := by
    intro z hz hcurz hiz
    exact ⟨z, c', hz, hcurz, hiz, hc', by rw [hto.above]; exact hb⟩
  obtain ⟨z, hz, -⟩ := pool_stays hs hy
  cases hq : pool_step hs hz with
  | same hy' =>
    cases hy.symm.trans hy'
    exact hpool hz hcur hi
  | submitted hy' =>
    cases hy.symm.trans hy'
    exact hpool hz hcur (List.mem_append_left _ hi)
  | made hnone =>
    rw [hnone] at hy
    cases hy
  | took hy' =>
    cases hy.symm.trans hy'
    cases stepTo_of_step hs with
    | runLoop hy'' hidle =>
      cases hy.symm.trans hy''
      rw [hcur] at hidle
      cases hidle
  | released hy' =>
    obtain ⟨w, d, k, hw, hcur', hclosed⟩ := release_closed hs
    cases hy.symm.trans hw
    cases hcur.symm.trans hcur'
    rw [hopen] at hclosed
    cases hclosed

/-- **It hangs forever.**  In no continuation is the coroutine started. -/
theorem hangs_run {p : PoolId} {b : BodyId} {l : LoopId} {as : List Action} (h : Ordered s) (hh : Hangs s p b l i)
    (hrun : machine.run s as = some s') : Hangs s' p b l i := by
  have hboth : Ordered s' ∧ Hangs s' p b l i := by
    refine machine.run_invariant (I := fun s => Ordered s ∧ Hangs s p b l i) ?_ ⟨h, hh⟩ hrun
    intro s a s' h hs
    exact ⟨ordered_step h.1 hs, hangs_step h.1 h.2 hs⟩
  exact hboth.2

end Asgiref.AsyncSingleThread
