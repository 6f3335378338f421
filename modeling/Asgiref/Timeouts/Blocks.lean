import Asgiref.Timeouts.Invariant

/-!
# What a timeout does to its block

* `Fires`, `expired_iff_fired` — `_cancelled` records that the loop has called `_cancel_task` during the block;
* `exit_iff_fired` — when a block ends with `TimeoutError`;
* `fire_inside` — whom a timeout cancels, and when;
* `timer_live_iff` — the timers that the loop still holds;
* `NotForeign`, `unwind_cancelledError` — the way of a `CancelledError` out of nested blocks.
-/

namespace Asgiref.Timeouts

open Asgiref.Python Asgiref.Lib State

/-! ### The record of `_cancelled` -/

/-- The loop calls `_cancel_task` of `k`, whose block some task is in. -/
def Fires (k : TimeoutId) (s : State) (a : Action) : Prop :=
  ∃ (h : Nat) (y : Handle) (t : TaskId), a = .fire h ∧ s.handles[h]? = some y ∧ y.target = k ∧ k ∈ s.blocks t

/-- A step leaves `_cancelled` as it is, but for the call of `_cancel_task` during the block. -/
theorem expired_step {s s' : State} {a : Action} {k : TimeoutId} (h : Sound s) (hstep : machine.step s a = some s') :
    s'.expired k = true ↔ s.expired k = true ∨ Fires k s a := by
  have hkeep : (s'.timeouts k).map (·.cancelled) = (s.timeouts k).map (·.cancelled) → (∀ h, a ≠ .fire h) →
      (s'.expired k = true ↔ s.expired k = true ∨ Fires k s a) := fun heq ha => by
    rw [expired, heq, ← expired, or_iff_left]
    rintro ⟨h, -, -, rfl, -⟩
    exact ha h rfl
  have hset : ∀ (k' : TimeoutId) (x x' : Timeout), s.timeouts k' = some x → x'.cancelled = x.cancelled →
      (if k = k' then some x' else s.timeouts k).map (·.cancelled) = (s.timeouts k).map (·.cancelled) := by
    intro k' x x' hx heq
    split
    · next hk => rw [hk, hx, Option.map_some, Option.map_some, heq]
    · rfl
  have hto : StepTo s a s' := stepTo_of_step hstep
  cases hto with
  | tick | createTask | enterNothing | enterNone | await | complete | wakeup | finish => exact hkeep rfl nofun
  | cancel => exact hkeep (by simp) nofun
  | @construct k' d hnone =>
    rw [expired, expired, timeouts_setTimeout, or_iff_left (fun ⟨_, _, _, ha, _⟩ => nomatch ha)]
    split
    · next hk => simp [hk, hnone]
    · rfl
  | enterRaises hx | enterSoon hx | enterLater hx =>
    refine hkeep ?_ nofun
    simp only [timeouts_setBlocks, timeouts_addHandle, timeouts_setTimeout]
    exact hset _ _ _ hx rfl
  | @exit k' x t rest r _ _ hx =>
    obtain ⟨s₁, c, hs, -, hcase⟩ := s.doExit_cases (k := k') (x := x) (raised r)
    have htimeouts : s₁.timeouts = s.timeouts := by
      obtain ⟨rfl, -⟩ | ⟨i, -, rfl⟩ := hcase <;> rfl
    refine hkeep ?_ nofun
    rw [hs, timeouts_setBlocks, timeouts_setTimeout, htimeouts]
    exact hset k' x _ hx rfl
  | @fireLate i y x _ hy _ hx htask =>
    rw [expired, timeouts_dropHandle, ← expired, or_iff_left]
    rintro ⟨j, z, t, ha, hz, rfl, hin⟩
    cases ha
    cases hy.symm.trans hz
    obtain ⟨x₀, hx₀, hl⟩ := h.linked i y hy
    cases hx.symm.trans hx₀
    obtain ⟨d, hd, -⟩ := hl.limit
    have hsome := (h.inside t _ x hx (by rw [hd]; nofun)).1 hin
    rw [htask] at hsome
    cases hsome
  | @fire i y x t _ hy _ hx htask =>
    have hexp : ∀ u : State, u.timeouts k = (if k = y.target then some { x with cancelled := true } else s.timeouts k) →
        (u.expired k = true ↔ k = y.target ∨ s.expired k = true) := fun u hu => by
      rw [expired, hu]
      by_cases hk : k = y.target <;> simp [hk, expired]
    rw [hexp _ (by simp), or_comm]
    refine or_congr_right ⟨fun hk => ?_, ?_⟩
    · obtain ⟨x₀, hx₀, hl⟩ := h.linked i y hy
      cases hx.symm.trans hx₀
      obtain ⟨d, hd, -⟩ := hl.limit
      exact ⟨i, y, t, rfl, hy, hk.symm, hk ▸ (h.inside t _ x hx (by rw [hd]; nofun)).2 htask⟩
    · rintro ⟨j, z, u, ha, hz, rfl, -⟩
      cases ha
      cases hy.symm.trans hz
      rfl

/-- **What `_cancelled` records.** -/
theorem expired_iff_fired {s : State} {as : List Action} (honce : machine.Meets EnteredOnce {} as)
    (hrun : machine.run {} as = some s) (k : TimeoutId) : s.expired k = true ↔ machine.Happened {} (Fires k) as :=
  machine.flag_iff_happened sound_init nofun (fun _ _ _ h hC hs => ⟨expired_step h hs, sound_step h hC hs⟩) honce hrun

/-! ### The end of a block -/

/-- What leaves a block: `TimeoutError` in place of a `CancelledError` after the timeout has expired, and what
left the body otherwise. -/
theorem exitBlock_eq {s s' : State} {t : TaskId} {r r' : Result Unit} (h : s.exitBlock t r = some (s', r')) :
    ∃ k rest, s.blocks t = k :: rest ∧ s'.blocks t = rest ∧ (∀ k', s'.expired k' = s.expired k') ∧
      r' = leave (s.expired k) r := by
  unfold exitBlock at h
  split at h
  · cases h
  · next k rest hb =>
    obtain ⟨x, hx, hp⟩ := Option.map_eq_some_iff.1 h
    obtain ⟨rfl, rfl⟩ := Prod.mk.inj hp
    obtain ⟨s₁, c, hs, -, hcase⟩ := s.doExit_cases (k := k) (x := x) (raised r)
    have htimeouts : s₁.timeouts = s.timeouts := by
      obtain ⟨rfl, -⟩ | ⟨i, -, rfl⟩ := hcase <;> rfl
    refine ⟨k, rest, hb, by simp, fun k' => ?_, ?_⟩
    · rw [hs, expired, timeouts_setBlocks, timeouts_setTimeout, htimeouts]
      split
      · next hk => simp [expired, hk, hx]
      · rfl
    · have hexpired : s.expired k = x.cancelled := by simp [expired, hx]
      have hno : ¬ (raised r = some .cancelledError ∧ x.cancelled = true) →
          (s.doExit k x (raised r)).2.elim r .error = r := fun hc => by
        unfold doExit
        rw [if_neg hc]
        split <;> rfl
      rw [hexpired]
      unfold leave
      split
      · by_cases hc : x.cancelled = true
        · simp [doExit, raised, hc]
        · rw [hno fun h => hc h.2, if_neg hc]
      · next hr =>
        refine hno fun h => ?_
        cases r with
        | ok => cases h.1
        | error e => exact hr (by rw [Option.some.inj h.1])

/-- **When a timeout ends a block.**  In every run that enters no object again the block ends with `TimeoutError`
in place of what left its body exactly if that is a `CancelledError` and the loop has called `_cancel_task` of the
object while its block was open. -/
theorem exit_iff_fired {s s' : State} {as : List Action} {t : TaskId} {r r' : Result Unit}
    (honce : machine.Meets EnteredOnce {} as) (hrun : machine.run {} as = some s)
    (hexit : s.exitBlock t r = some (s', r')) : ∃ k rest, s.blocks t = k :: rest ∧
      (r = .error .cancelledError ∧ machine.Happened {} (Fires k) as ∧ r' = .error timeoutError ∨
        ¬ (r = .error .cancelledError ∧ machine.Happened {} (Fires k) as) ∧ r' = r) := by
  obtain ⟨k, rest, hb, -, -, hr'⟩ := exitBlock_eq hexit
  refine ⟨k, rest, hb, ?_⟩
  rw [← expired_iff_fired honce hrun k]
  by_cases hc : r = .error .cancelledError ∧ s.expired k = true
  · exact .inl ⟨hc.1, hc.2, by rw [hr', hc.1, hc.2]; rfl⟩
  · refine .inr ⟨hc, ?_⟩
    by_cases hr : r = .error .cancelledError
    · rw [hr', hr, Bool.eq_false_iff.2 fun he => hc ⟨hr, he⟩]
      rfl
    · rw [hr', leave_of_ne hr]

/-- A task enters a block of five ticks and is still suspended in it when they are over. -/
def overtime : List Action :=
  [.createTask 0, .construct 0 (some 5), .wakeup 0, .enter 0, .await .future, .tick 5]

/-- The block ends with `TimeoutError` after the timer was called. -/
theorem exit_overtime : ∃ s s', machine.run {} (overtime ++ [.fire 0, .wakeup 0]) = some s ∧
    s.exitBlock 0 (.error .cancelledError) = some (s', .error timeoutError) ∧
      machine.Happened {} (Fires 0) (overtime ++ [.fire 0, .wakeup 0]) := by
  refine ⟨_, _, rfl, rfl, ?_⟩
  obtain ⟨k, rest, hb, ⟨-, hfired, -⟩ | ⟨-, hr⟩⟩ := @exit_iff_fired _ _ (overtime ++ [.fire 0, .wakeup 0]) 0
    (.error .cancelledError) (.error timeoutError) (by decide) rfl rfl
  · cases show [0] = k :: rest from hb
    exact hfired
  · exact absurd hr (by decide)

/-! ### Whom a timeout cancels -/

/-- The task `t` enters the block for which the handle is made, which is to be called when the timeout is over. -/
def Enters (y : Handle) (t : TaskId) (now : Int) (s : State) (a : Action) : Prop :=
  a = .enter y.target ∧ s.current = some t ∧ s.time ≤ now ∧ ∃ x d, s.timeouts y.target = some x ∧ x.timeout = some d ∧
    (d ≤ 0 ∧ y.callAt = none ∨ y.callAt = some (s.time + d))

/-- The task `t` enters the block of `k`, and its timeout is over at the time `now`. -/
def EntersBefore (k : TimeoutId) (t : TaskId) (now : Int) (s : State) (a : Action) : Prop :=
  a = .enter k ∧ s.current = some t ∧ ∃ x d, s.timeouts k = some x ∧ x.timeout = some d ∧ s.time + d ≤ now

theorem time_le_of_step {s s' : State} {a : Action} (hstep : machine.step s a = some s') : s.time ≤ s'.time := by
  have hto : StepTo s a s' := stepTo_of_step hstep
  cases hto with
  | tick d => exact Int.le_add_of_nonneg_right (Int.natCast_nonneg d)
  | @exit k x t rest r =>
    obtain ⟨s₁, c, hs, -, hcase⟩ := s.doExit_cases (k := k) (x := x) (raised r)
    rw [hs]
    obtain ⟨rfl, -⟩ | ⟨i, -, rfl⟩ := hcase <;> exact Int.le_refl _
  | cancel | fire => simp
  | _ => exact Int.le_refl _

/-- The object of a handle will cancel a task. -/
def State.Aims (s : State) (y : Handle) (t : TaskId) : Prop :=
  ∃ (i : Nat) (z : Handle) (x : Timeout), s.handles[i]? = some z ∧ z.target = y.target ∧ z.callAt = y.callAt ∧
    s.timeouts y.target = some x ∧ x.task = some t

/-- Only the task that enters a block is aimed at. -/
theorem aims_step {s s' : State} {a : Action} {y : Handle} {t : TaskId} (honce : EnteredOnce s a)
    (hstep : machine.step s a = some s') (h : s'.Aims y t) : s.Aims y t ∨ Enters y t s.time s a := by
  obtain ⟨i, z, x', hz, htarget, hat, hx', htask⟩ := h
  have hto : StepTo s a s' := stepTo_of_step hstep
  cases hto with
  | tick | createTask | enterNothing | enterNone | await | complete | wakeup | finish =>
    exact .inl ⟨i, z, x', hz, htarget, hat, hx', htask⟩
  | cancel => exact .inl ⟨i, z, x', by simpa using hz, htarget, hat, by simpa using hx', htask⟩
  | construct =>
    rw [timeouts_setTimeout] at hx'
    split at hx'
    · cases hx'
      cases htask
    · exact .inl ⟨i, z, x', hz, htarget, hat, hx', htask⟩
  | enterRaises =>
    rw [timeouts_setTimeout] at hx'
    split at hx'
    · cases hx'
      cases htask
    · exact .inl ⟨i, z, x', hz, htarget, hat, hx', htask⟩
  | @enterSoon k x u d hx hu hd hle =>
    simp only [timeouts_setBlocks, timeouts_addHandle, timeouts_setTimeout] at hx'
    split at hx'
    · next hk =>
      cases hx'
      cases htask
      rcases handles_addHandle_eq_some.1 hz with hz | ⟨-, rfl⟩
      · exact absurd (htarget.trans hk) (honce z (List.mem_of_getElem? hz))
      · exact .inr ⟨by rw [hk], hu, Int.le_refl _, x, d, by rw [hk]; exact hx, hd, .inl ⟨hle, hat.symm⟩⟩
    · next hk =>
      rcases handles_addHandle_eq_some.1 hz with hz | ⟨-, rfl⟩
      · exact .inl ⟨i, z, x', hz, htarget, hat, hx', htask⟩
      · exact absurd htarget.symm hk
  | @enterLater k x u d hx hu hd _ =>
    simp only [timeouts_setBlocks, timeouts_addHandle, timeouts_setTimeout] at hx'
    split at hx'
    · next hk =>
      cases hx'
      cases htask
      rcases handles_addHandle_eq_some.1 hz with hz | ⟨-, rfl⟩
      · exact absurd (htarget.trans hk) (honce z (List.mem_of_getElem? hz))
      · exact .inr ⟨by rw [hk], hu, Int.le_refl _, x, d, by rw [hk]; exact hx, hd, .inr hat.symm⟩
    · next hk =>
      rcases handles_addHandle_eq_some.1 hz with hz | ⟨-, rfl⟩
      · exact .inl ⟨i, z, x', hz, htarget, hat, hx', htask⟩
      · exact absurd htarget.symm hk
  | @exit k x u rest r =>
    obtain ⟨s₁, c, hs, -, hcase⟩ := s.doExit_cases (k := k) (x := x) (raised r)
    have hold : s₁.timeouts = s.timeouts ∧
        ∃ z₀ : Handle, s.handles[i]? = some z₀ ∧ z₀.target = z.target ∧ z₀.callAt = z.callAt := by
      rw [hs] at hz
      obtain ⟨rfl, -⟩ | ⟨j, -, rfl⟩ := hcase
      · exact ⟨rfl, z, hz, rfl, rfl⟩
      · obtain ⟨z₀, hz₀, rfl⟩ := handles_dropHandle.1 hz
        exact ⟨rfl, z₀, hz₀, by split <;> rfl, by split <;> rfl⟩
    obtain ⟨htimeouts, z₀, hz₀, ht₀, ha₀⟩ := hold
    rw [hs, timeouts_setBlocks, timeouts_setTimeout, htimeouts] at hx'
    split at hx'
    · cases hx'
      cases htask
    · exact .inl ⟨i, z₀, x', hz₀, ht₀.trans htarget, ha₀.trans hat, hx', htask⟩
  | @fireLate j w x =>
    obtain ⟨z₀, hz₀, rfl⟩ := handles_dropHandle.1 hz
    refine .inl ⟨i, z₀, x', hz₀, ?_, ?_, hx', htask⟩
    · rw [← htarget]
      split <;> rfl
    · rw [← hat]
      split <;> rfl
  | @fire j w x u _ _ _ hx hu =>
    rw [handles_setTimeout, cancel_handles] at hz
    obtain ⟨z₀, hz₀, rfl⟩ := handles_dropHandle.1 hz
    have hz₀' : (if i = j then { z₀ with live := false } else z₀).target = z₀.target ∧
        (if i = j then { z₀ with live := false } else z₀).callAt = z₀.callAt := by split <;> exact ⟨rfl, rfl⟩
    rw [hz₀'.1] at htarget
    rw [hz₀'.2] at hat
    simp only [timeouts_setTimeout, cancel_timeouts, timeouts_dropHandle] at hx'
    split at hx'
    · next hk =>
      cases hx'
      exact .inl ⟨i, z₀, x, hz₀, htarget, hat, by rw [hk]; exact hx, htask⟩
    · exact .inl ⟨i, z₀, x', hz₀, htarget, hat, hx', htask⟩

/-- Who is aimed at has entered the block. -/
theorem entered_of_aims {s : State} {as : List Action} {y : Handle} {t : TaskId}
    (honce : machine.Meets EnteredOnce {} as) (hrun : machine.run {} as = some s) (h : s.Aims y t) :
    machine.Happened {} (Enters y t s.time) as := by
  refine machine.run_history_of_meets (I := fun past s => s.Aims y t → machine.Happened {} (Enters y t s.time) past)
    (fun past s a s' hpast ih hC hs haims => ?_) (fun ⟨i, z, x, hz, _⟩ => by cases hz) honce hrun h
  have hle := time_le_of_step hs
  have hlater : ∀ (u : State) (b : Action), Enters y t s.time u b → Enters y t s'.time u b :=
    fun u b ⟨hb, hu, hnow, hrest⟩ => ⟨hb, hu, Int.le_trans hnow hle, hrest⟩
  rw [machine.happened_snoc hpast]
  obtain haims | henters := aims_step hC hs haims
  · exact .inl ((ih haims).mono hlater)
  · exact .inr (hlater s a henters)

/-- **Whom a timeout cancels.**  In every run that enters no object again, a call of `_cancel_task` after the block
was left changes nothing but the handle.  Otherwise it cancels the one task that entered the block, which is still in
it and suspended, once, not before the timeout is over, and `remaining` is not positive. -/
theorem fire_inside {s s' : State} {as : List Action} {h : Nat} (honce : machine.Meets EnteredOnce {} as)
    (hrun : machine.run {} as = some s) (hstep : machine.step s (.fire h) = some s') :
    ∃ y x, s.handles[h]? = some y ∧ s.timeouts y.target = some x ∧ s'.blocks = s.blocks ∧
      ((∀ t, y.target ∉ s.blocks t) ∧ s'.tasks = s.tasks ∧ s'.timeouts = s.timeouts ∨
        ∃ t z, y.target ∈ s.blocks t ∧ s.tasks t = some z ∧ z.Suspended ∧ z.cancel.cancelling = true ∧
          s'.tasks = Function.update s.tasks t (some z.cancel) ∧ s.expired y.target = false ∧
          s'.expired y.target = true ∧ (∀ w ∈ s.remaining x, w ≤ 0) ∧
          machine.Happened {} (EntersBefore y.target t s.time) as) := by
  have hsound := sound_run honce hrun
  have hto : StepTo s (.fire h) s' := stepTo_of_step hstep
  cases hto with
  | @fireLate _ y x _ hy _ hx htask =>
    refine ⟨y, x, hy, hx, rfl, .inl ⟨fun t hm => ?_, rfl, rfl⟩⟩
    obtain ⟨x₀, hx₀, hl⟩ := hsound.linked h y hy
    cases hx.symm.trans hx₀
    obtain ⟨d, hd, -⟩ := hl.limit
    rw [(hsound.inside t _ x hx (by rw [hd]; nofun)).1 hm] at htask
    cases htask
  | @fire _ y x t hc hy hdue hx htask =>
    obtain ⟨x₀, hx₀, hl⟩ := hsound.linked h y hy
    cases hx.symm.trans hx₀
    obtain ⟨d, hd, -⟩ := hl.limit
    have hin := (hsound.inside t _ x hx (by rw [hd]; nofun)).2 htask
    obtain ⟨z, hz, hsus⟩ := (single_run hrun).suspended hc hin
    refine ⟨y, x, hy, hx, by simp, .inr ⟨t, z, hin, hz, hsus, ?_, ?_, ?_, ?_, fun w hw => ?_, ?_⟩⟩
    · obtain ⟨w, hw⟩ := hsus
      exact AsyncTask.cancelling_cancel (by rw [hw]; nofun)
    · funext u
      rw [tasks_setTimeout, tasks_cancel, Function.update_apply, tasks_dropHandle, hz, Option.map_some]
    · rw [expired, hx]
      refine Bool.eq_false_iff.2 fun hcan => ?_
      have hlive := hdue.1
      rw [(hl.expired hcan).1] at hlive
      cases hlive
    · simp [expired]
    · obtain ⟨v, hv, rfl⟩ := Option.map_eq_some_iff.1 hw
      have hle := hdue.2 v (by rw [← hl.cancelAt]; exact hv)
      omega
    · have haims := entered_of_aims honce hrun ⟨h, y, x, hy, rfl, rfl, hx, htask⟩
      refine haims.mono fun u b ⟨hb, hu, hnow, x₀, d₀, hx₀, hd₀, hat⟩ =>
        ⟨hb, hu, x₀, d₀, hx₀, hd₀, ?_⟩
      obtain ⟨hle, -⟩ | hat := hat
      · omega
      · exact hdue.2 _ hat

/-- The task of a block that is open too long was entered five ticks before. -/
theorem fire_overtime : ∃ s s', machine.run {} overtime = some s ∧ machine.step s (.fire 0) = some s' ∧
    machine.Happened {} (EntersBefore 0 0 5) overtime := by
  refine ⟨_, _, rfl, rfl, ?_⟩
  obtain ⟨y, x, hy, -, -, ⟨hout, -⟩ | ⟨t, z, hin, -, -, -, -, -, -, -, hentered⟩⟩ := @fire_inside _ _ overtime 0
    (by decide) rfl rfl
  · cases hy
    exact absurd (List.mem_singleton_self 0) (hout 0)
  · cases hy
    have ht : t = 0 := by
      by_contra hne
      have hnil : (0 : Nat) ∈ Function.update (fun _ => ([] : List TimeoutId)) 0 [0] t := hin
      rw [Function.update_of_ne hne] at hnil
      cases hnil
    rw [ht] at hentered
    exact hentered

/-! ### The timers of the loop -/

/-- **The timers that the loop holds.**  In every run that enters no object again, a timer is live exactly while its
block is open and the timeout has not expired; so there is at most one for each open block, and none without. -/
theorem timer_live_iff {s : State} {as : List Action} {h : Nat} {y : Handle} (honce : machine.Meets EnteredOnce {} as)
    (hrun : machine.run {} as = some s) (hy : s.handles[h]? = some y) (hat : y.callAt ≠ none) :
    y.live = true ↔ (∃ t, y.target ∈ s.blocks t) ∧ s.expired y.target = false := by
  have hsound := sound_run honce hrun
  obtain ⟨x, hx, hl⟩ := hsound.linked h y hy
  obtain ⟨d, hd, -⟩ := hl.limit
  have hexpired : s.expired y.target = x.cancelled := by simp [expired, hx]
  have hinside := fun t => hsound.inside t _ x hx (by rw [hd]; nofun)
  simp only [hinside, hexpired]
  constructor
  · intro hlive
    refine ⟨Option.ne_none_iff_exists'.1 (hl.timer hlive hat), Bool.eq_false_iff.2 fun hcan => ?_⟩
    rw [(hl.expired hcan).1] at hlive
    cases hlive
  · rintro ⟨⟨t, ht⟩, hcan⟩
    refine (hl.waiting (by rw [ht]; nofun)).resolve_right ?_
    rw [hcan]
    exact Bool.false_ne_true

/-- The timer of an open block. -/
theorem timer_live_overtime : ∃ s y, machine.run {} overtime = some s ∧ s.handles[(0 : Nat)]? = some y ∧
    (y.live = true ↔ (∃ t, y.target ∈ s.blocks t) ∧ s.expired y.target = false) :=
  ⟨_, _, rfl, rfl, @timer_live_iff _ overtime 0 _ (by decide) rfl rfl nofun⟩

/-! ### The way of a `CancelledError` -/

/-- Nobody but the timeouts cancels a task, and what a task awaits ends with a `CancelledError` only after it was
cancelled. -/
def NotForeign (s : State) : Action → Prop
  | .cancel _ => False
  | .complete t (.error .cancelledError) => ∀ z, s.tasks t = some z → z.cancelling = true
  | _ => True

/-- A cancellation on its way is one of a timeout whose block is open. -/
def Owed (s : State) : Prop :=
  ∀ t z, s.tasks t = some z → z.cancelling = true → z.Suspended ∧ ∃ k ∈ s.blocks t, s.expired k = true

theorem owed_init : Owed {} := nofun

/-- The running task has no cancellation on its way. -/
theorem Owed.mustCancel {s : State} (h : Owed s) {t : TaskId} {z : AsyncTask} (hz : s.tasks t = some z)
    (hrun : z.pc = .running) : z.mustCancel = false := by
  refine Bool.eq_false_iff.2 fun hm => ?_
  obtain ⟨⟨w, hw⟩, -⟩ := h t z hz (by simp [AsyncTask.cancelling, hm])
  rw [hw] at hrun
  cases hrun

/-- A step on one task and on the blocks of the running one. -/
theorem Owed.frame {s s' : State} (h : Owed s) (hsingle : Single s) (t : TaskId)
    (htasks : ∀ u, u ≠ t → s'.tasks u = s.tasks u)
    (hblocks : ∀ u, s'.blocks u = s.blocks u ∨ s.current = some u)
    (hexpired : ∀ k, s.expired k = true → s'.expired k = true)
    (ht : ∀ z, s'.tasks t = some z → z.cancelling = true →
      z.Suspended ∧ ∃ k ∈ s'.blocks t, s'.expired k = true) : Owed s' := by
  intro u z hz hc
  by_cases hu : u = t
  · rw [hu] at hz ⊢
    exact ht z hz hc
  · rw [htasks u hu] at hz
    obtain ⟨hsus, k, hk, he⟩ := h u z hz hc
    obtain hb | hcur := hblocks u
    · exact ⟨hsus, k, by rw [hb]; exact hk, hexpired k he⟩
    · obtain ⟨y, hy, hr⟩ := hsingle.current u hcur
      cases hz.symm.trans hy
      obtain ⟨w, hw⟩ := hsus
      rw [hw] at hr
      cases hr

theorem owed_step {s s' : State} {a : Action} (h : Owed s) (hsound : Sound s) (hsingle : Single s)
    (hforeign : NotForeign s a) (hstep : machine.step s a = some s') : Owed s' := by
  have hexpired : ∀ k, s.expired k = true → s'.expired k = true := fun k hk => (expired_step hsound hstep).2 (.inl hk)
  have hto : StepTo s a s' := stepTo_of_step hstep
  -- a step of the running task on its own blocks
  have hown : ∀ t, s.current = some t → s'.tasks = s.tasks → (∀ u, u ≠ t → s'.blocks u = s.blocks u) → Owed s' := by
    intro t ht htasks hblocks
    refine h.frame hsingle t (fun u _ => by rw [htasks]) (fun u => ?_) hexpired fun z hz hc => ?_
    · by_cases hu : u = t
      · exact .inr (hu ▸ ht)
      · exact .inl (hblocks u hu)
    · rw [htasks] at hz
      obtain ⟨y, hy, hr⟩ := hsingle.current t ht
      cases hz.symm.trans hy
      obtain ⟨⟨w, hw⟩, -⟩ := h t z hz hc
      rw [hw] at hr
      cases hr
  cases hto with
  | tick | enterNothing | fireLate => exact h
  | construct | enterRaises =>
    intro t z hz hc
    obtain ⟨hsus, k, hk, he⟩ := h t z hz hc
    exact ⟨hsus, k, hk, hexpired k he⟩
  | @enterNone k x t _ ht => exact hown t ht rfl fun u hu => by simp [hu]
  | @enterSoon k x t d _ ht => exact hown t ht rfl fun u hu => by simp [hu]
  | @enterLater k x t d _ ht => exact hown t ht rfl fun u hu => by simp [hu]
  | @exit k x t rest r ht =>
    obtain ⟨s₁, c, hs, -, hcase⟩ := s.doExit_cases (k := k) (x := x) (raised r)
    have hparts : s₁.tasks = s.tasks ∧ s₁.blocks = s.blocks := by
      obtain ⟨rfl, -⟩ | ⟨i, -, rfl⟩ := hcase <;> exact ⟨rfl, rfl⟩
    exact hown t ht (by rw [hs]; exact hparts.1) fun u hu => by simp [hs, hu, hparts.2]
  | @createTask t hnone =>
    refine h.frame hsingle t (fun u hu => by simp [hu]) (fun _ => .inl rfl) hexpired fun z hz hc => ?_
    rw [tasks_setTask, if_pos rfl] at hz
    cases hz
    cases hc
  | @await t y a ht hy =>
    refine h.frame hsingle t (fun u hu => by simp [hu]) (fun _ => .inl rfl) hexpired fun z hz hc => ?_
    obtain ⟨y', hy', hr⟩ := hsingle.current t ht
    cases hy.symm.trans hy'
    rw [tasks_setTask, if_pos rfl] at hz
    cases hz
    rw [AsyncTask.cancelling_suspend (h.mustCancel hy hr)] at hc
    cases hc
  | @complete t y y' r hy hy' =>
    refine h.frame hsingle t (fun u hu => by simp [hu]) (fun _ => .inl rfl) hexpired fun z hz hc => ?_
    rw [tasks_setTask, if_pos rfl] at hz
    cases hz
    refine ⟨(AsyncTask.suspended_of_complete hy').2, (h t y hy ?_).2⟩
    obtain hold | rfl := AsyncTask.cancelling_of_complete hy' hc
    · exact hold
    · exact hforeign y hy
  | @wakeup t y r hc hy hr =>
    refine h.frame hsingle t (fun u hu => by simp [hu]) (fun _ => .inl rfl) hexpired fun z hz hc => ?_
    rw [tasks_setTask, if_pos rfl] at hz
    cases hz
    cases hc
  | cancel => exact hforeign.elim
  | @fire i y x t hc hy _ hx htask =>
    refine h.frame hsingle t (fun u hu => by simp [tasks_cancel, hu]) (fun _ => .inl (by simp)) hexpired fun z hz _ => ?_
    obtain ⟨x₀, hx₀, hl⟩ := hsound.linked i y hy
    cases hx.symm.trans hx₀
    obtain ⟨d, hd, -⟩ := hl.limit
    have hin := (hsound.inside t _ x hx (by rw [hd]; nofun)).2 htask
    obtain ⟨z₀, hz₀, hsus⟩ := hsingle.suspended hc hin
    rw [tasks_setTimeout, tasks_cancel, if_pos rfl, tasks_dropHandle, hz₀] at hz
    cases hz
    exact ⟨AsyncTask.suspended_cancel hsus, y.target, by simpa using hin, by simp [expired]⟩
  | @finish t y ht hb hy =>
    refine h.frame hsingle t (fun u hu => by simp [hu]) (fun _ => .inl rfl) hexpired fun z hz hc => ?_
    obtain ⟨y', hy', hr⟩ := hsingle.current t ht
    cases hy.symm.trans hy'
    rw [tasks_setTask, if_pos rfl] at hz
    cases hz
    simp [AsyncTask.cancelling, h.mustCancel hy hr] at hc

theorem owed_run {s : State} {as : List Action} (honce : machine.Meets EnteredOnce {} as)
    (hforeign : machine.Meets NotForeign {} as) (hrun : machine.run {} as = some s) : Owed s := by
  have hall := machine.run_invariant_of_meets (I := fun s => Sound s ∧ Single s ∧ Owed s)
    (fun s a s' hI hC hs => ⟨sound_step hI.1 hC.1 hs, single_step hI.2.1 hs, owed_step hI.2.2 hI.1 hI.2.1 hC.2 hs⟩)
    ⟨sound_init, single_init, owed_init⟩ (machine.meets_and honce hforeign) hrun
  exact hall.2.2

/-- A block of a known object can be left, and leaves the objects known. -/
theorem exists_exitBlock {s : State} {t : TaskId} {k : TimeoutId} {rest : List TimeoutId} (hb : s.blocks t = k :: rest)
    (hknown : ∀ j ∈ s.blocks t, s.timeouts j ≠ none) (r : Result Unit) :
    ∃ s' r', s.exitBlock t r = some (s', r') ∧ ∀ j ∈ s'.blocks t, s'.timeouts j ≠ none := by
  obtain ⟨x, hx⟩ := Option.ne_none_iff_exists'.1 (hknown k (by rw [hb]; exact List.mem_cons_self ..))
  refine ⟨(s.doExit k x (raised r)).1.setBlocks t rest, (s.doExit k x (raised r)).2.elim r .error, ?_, fun j hj => ?_⟩
  · unfold exitBlock
    rw [hb]
    simp only [hx, Option.map_some]
  · obtain ⟨s₁, c, hs, -, hcase⟩ := s.doExit_cases (k := k) (x := x) (raised r)
    have htimeouts : s₁.timeouts = s.timeouts := by
      obtain ⟨rfl, -⟩ | ⟨i, -, rfl⟩ := hcase <;> rfl
    rw [hs, timeouts_setBlocks, timeouts_setTimeout, htimeouts]
    split
    · nofun
    · rw [blocks_setBlocks, if_pos rfl] at hj
      exact hknown j (by rw [hb]; exact List.mem_cons_of_mem _ hj)

/-- What leaves `n` blocks: a `CancelledError` is a `TimeoutError` once it has left an expired one. -/
theorem unwind_eq {t : TaskId} {n : Nat} {s : State} (hn : n ≤ (s.blocks t).length)
    (hknown : ∀ k ∈ s.blocks t, s.timeouts k ≠ none) (r : Result Unit) :
    ∃ s', s.unwind t n r = some (s', if r = .error .cancelledError ∧ ((s.blocks t).take n).any s.expired = true then
      .error timeoutError else r) := by
  induction n generalizing s r with
  | zero => exact ⟨s, by simp [unwind]⟩
  | succ n ih =>
    cases hb : s.blocks t with
    | nil =>
      rw [hb] at hn
      cases hn
    | cons k rest =>
      obtain ⟨s₁, r₁, hexit, hknown₁⟩ := exists_exitBlock hb hknown r
      obtain ⟨k', rest', hb', hrest, hexp, hr₁⟩ := exitBlock_eq hexit
      cases hb.symm.trans hb'
      rw [hb] at hn
      obtain ⟨s', hs'⟩ := ih (by rw [hrest]; exact Nat.le_of_succ_le_succ hn) hknown₁ r₁
      refine ⟨s', ?_⟩
      rw [unwind, hexit, Option.bind_some, hs', hrest, List.take_succ_cons, List.any_cons, funext hexp, hr₁]
      have hne : (Except.error timeoutError : Result Unit) ≠ .error .cancelledError := by decide
      by_cases hc : r = .error .cancelledError
      · by_cases he : s.expired k = true <;> simp [hc, he, hne, leave]
      · simp [hc, leave_of_ne]

/-- The innermost expired block is where a `CancelledError` ends. -/
theorem unwind_of_split {s : State} {t : TaskId} {k : TimeoutId} {pre post : List TimeoutId}
    (hb : s.blocks t = pre ++ k :: post) (hk : s.expired k = true) (hpre : ∀ j ∈ pre, s.expired j = false)
    (hknown : ∀ k ∈ s.blocks t, s.timeouts k ≠ none) {n : Nat} (hn : n ≤ (s.blocks t).length) :
    ∃ u, s.unwind t n (.error .cancelledError) =
      some (u, if n ≤ pre.length then .error .cancelledError else .error timeoutError) := by
  obtain ⟨u, hu⟩ := unwind_eq hn hknown (.error .cancelledError)
  refine ⟨u, hu.trans ?_⟩
  by_cases hle : n ≤ pre.length
  · have hany : ¬ ((s.blocks t).take n).any s.expired = true := by
      rw [hb, List.take_append_of_le_length hle, List.any_eq_true]
      rintro ⟨j, hj, he⟩
      rw [hpre j (List.mem_of_mem_take hj)] at he
      cases he
    rw [if_neg fun h => hany h.2, if_pos hle]
  · obtain ⟨m, rfl⟩ := Nat.exists_eq_add_of_lt (Nat.not_le.1 hle)
    have hany : ((s.blocks t).take (pre.length + m + 1)).any s.expired = true := by
      rw [hb, Nat.add_assoc, List.take_length_add_append, List.take_succ_cons]
      exact List.any_eq_true.2 ⟨k, List.mem_append_right _ (List.mem_cons_self ..), hk⟩
    rw [if_pos ⟨rfl, hany⟩, if_neg hle]

/-- **The way of a `CancelledError`.**  In every run in which nobody but the timeouts cancels tasks, a
`CancelledError` that arrives in a task leaves the blocks inside the innermost expired one as it is, and all the
others as `TimeoutError`; there is an expired one. -/
theorem unwind_cancelledError {s s' : State} {as : List Action} {t : TaskId} {z : AsyncTask}
    (honce : machine.Meets EnteredOnce {} as) (hforeign : machine.Meets NotForeign {} as)
    (hrun : machine.run {} as = some s) (hz : s.tasks t = some z)
    (harrives : z.arrives = some (.error .cancelledError)) (hstep : machine.step s (.wakeup t) = some s') :
    ∃ pre k post, s'.blocks t = pre ++ k :: post ∧ s'.expired k = true ∧ (∀ j ∈ pre, s'.expired j = false) ∧
      ∀ n ≤ (s'.blocks t).length, ∃ u, s'.unwind t n (.error .cancelledError) =
        some (u, if n ≤ pre.length then .error .cancelledError else .error timeoutError) := by
  obtain ⟨-, hex⟩ := owed_run honce hforeign hrun t z hz (AsyncTask.cancelling_of_arrives harrives)
  have hto : StepTo s (.wakeup t) s' := stepTo_of_step hstep
  have hparts : s'.blocks = s.blocks ∧ s'.timeouts = s.timeouts := by
    cases hto
    exact ⟨rfl, rfl⟩
  have hexpired : s'.expired = s.expired := by
    funext k
    rw [expired, hparts.2, expired]
  have hfind : ((s.blocks t).find? s.expired).isSome = true := List.find?_isSome.2 hex
  obtain ⟨k, hk⟩ := Option.isSome_iff_exists.1 hfind
  obtain ⟨hke, pre, post, hb, hpre⟩ := List.find?_eq_some_iff_append.1 hk
  have hpre' : ∀ j ∈ pre, s.expired j = false := fun j hj => by simpa using hpre j hj
  rw [← hexpired] at hke hpre'
  rw [← hparts.1] at hb
  refine ⟨pre, k, post, hb, hke, hpre', fun n hn => unwind_of_split hb hke hpre' (fun j hj => ?_) hn⟩
  rw [hparts.1] at hj
  rw [hparts.2]
  exact (sound_run honce hrun).known t j hj

/-- Of two nested blocks the outer one is over first. -/
def nested : List Action :=
  [.createTask 0, .construct 0 (some 5), .construct 1 (some 7), .wakeup 0, .enter 0, .enter 1, .await .future, .tick 6,
    .fire 0]

theorem unwind_nested : ∃ s s', machine.run {} nested = some s ∧ machine.step s (.wakeup 0) = some s' ∧
    ∃ pre k post, s'.blocks 0 = pre ++ k :: post ∧ s'.expired k = true ∧ (∀ j ∈ pre, s'.expired j = false) ∧
      ∀ n ≤ (s'.blocks 0).length, ∃ u, s'.unwind 0 n (.error .cancelledError) =
        some (u, if n ≤ pre.length then .error .cancelledError else .error timeoutError) := by
  have hforeign : machine.Meets NotForeign {} nested := by simp [Machine.Meets, nested, NotForeign]
  exact ⟨_, _, rfl, rfl, @unwind_cancelledError _ _ nested 0 _ (by decide) hforeign rfl rfl rfl rfl⟩

end Asgiref.Timeouts
