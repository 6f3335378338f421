import Asgiref.Testing.Channels

/-!
# How the calls of an `ApplicationCommunicator` end

* `Settled` — what the suspended calls know of the application, `settled_run`;
* `wait_returns` — what `wait` returns, and that its `finally` has nothing left to do;
* `receive_output_raises` — after `TimeoutError` the application is done;
* `refused_after_failure` — an application that has failed gets nothing more.
-/

namespace Asgiref.Testing

open Asgiref.Python Asgiref.Lib Asgiref.Timeouts State

variable {M : Type}

/-! ### The invariant -/

/-- The call is suspended. -/
def Phase.Suspended (p : Phase M) : Prop := ∀ r, p ≠ .ended r

/-- What is known of a call. -/
structure Settled (s : State M) (c : Call M) : Prop where
  future : c.phase.Suspended → s.future ≠ none
  notCleaning : ∀ out, c.phase ≠ .cleaning out
  mustCancel : c.phase = .waiting ∨ c.phase = .stopping → c.mustCancel = true → s.result ≠ none
  expired : c.phase = .stopping → c.expired = true

theorem Settled.keep {s s' : State M} {c : Call M} (h : Settled s c) (hk : Keeps s s') : Settled s' c where
  future hs := hk.future (h.future hs)
  notCleaning := h.notCleaning
  mustCancel hp hm := by
    obtain ⟨r, hr⟩ := Option.ne_none_iff_exists'.1 (h.mustCancel hp hm)
    rw [hk.result r hr]
    nofun
  expired := h.expired

theorem settled_ended {s : State M} {c : Call M} {r : Result (Answer M)} (h : c.phase = .ended r) : Settled s c where
  future hs := absurd h (hs r)
  notCleaning out ho := by cases h.symm.trans ho
  mustCancel hp := by
    rw [h] at hp
    rcases hp with hp | hp <;> cases hp
  expired hp := by cases h.symm.trans hp

/-- A call that waits for something else than the application. -/
theorem settled_getting {s : State M} {c : Call M} (h : c.phase = .getting ∨ c.phase = .polling) (hf : s.future ≠ none) :
    Settled s c where
  future _ := hf
  notCleaning out ho := by
    rw [ho] at h
    rcases h with h | h <;> cases h
  mustCancel hp := by
    rcases h with h | h <;> rw [h] at hp <;> rcases hp with hp | hp <;> cases hp
  expired hp := by
    rw [hp] at h
    rcases h with h | h <;> cases h

theorem settled_poll {s s' : State M} {c : Call M} {more : Bool} (hc : c.phase = s.poll more) (hf : s'.future ≠ none) :
    Settled s' c := by
  obtain hp | hp := poll_cases s more
  · exact settled_getting (.inr (hc.trans hp)) hf
  · exact settled_ended (hc.trans hp)

theorem future_ensure (s : State M) : s.ensure.future ≠ none := Option.some_ne_none _

/-- A call of `wait` that suspends. -/
theorem settled_wait (s : State M) : Settled s.ensure ({ phase := .waiting } : Call M) where
  future _ := future_ensure s
  notCleaning _ ho := by cases ho
  mustCancel _ hm := by cases hm
  expired hp := by cases hp

theorem future_cancelFuture {s : State M} (h : s.future ≠ none) : s.cancelFuture.future ≠ none :=
  (keeps_cancelFuture s).future h

theorem settled_waitFinally {s : State M} {c : Call M} {r r₀ : Result Unit} (h : s.result = some r₀) :
    Settled (s.waitFinally c r).1 (s.waitFinally c r).2 := by
  unfold waitFinally
  rw [h]
  exact settled_ended rfl

theorem settled_begin (s : State M) (op : Op M) : Settled (s.begin op).1 (s.begin op).2 := by
  cases op with
  | future => exact settled_ended rfl
  | sendInput m =>
    obtain ⟨e, -, hs⟩ | ⟨-, hs⟩ := sendInput_cases s m <;> rw [State.begin, hs] <;> exact settled_ended rfl
  | receiveOutput =>
    unfold State.begin receiveOutput
    dsimp only
    split
    · exact settled_ended rfl
    · split
      · exact settled_ended rfl
      · exact settled_getting (.inl rfl) (future_ensure s)
  | receiveNothing more =>
    unfold State.begin receiveNothing
    dsimp only
    split
    · exact settled_ended rfl
    · exact settled_poll rfl (future_ensure s)
  | wait =>
    unfold State.begin State.wait
    dsimp only
    split
    · next r hr => exact settled_waitFinally hr
    · exact settled_wait s
  | stop exceptions =>
    unfold State.begin stop
    dsimp only
    split <;> exact settled_ended rfl

/-- The application, where it is not done, is cancelled by a `receive_output` that has timed out. -/
theorem settled_getNext {s : State M} {c : Call M} {p : State M × Call M} (hf : s.future ≠ none)
    (h : s.getNext c = some p) : Settled p.1 p.2 := by
  unfold getNext at h
  split at h
  · split at h
    · next e he =>
      split at h <;> cases h
      · next hte =>
        have hexp : c.expired = true := by
          cases hx : c.expired with
          | true => rfl
          | false =>
            rw [hx] at he
            cases he
            exact absurd hte (by decide)
        unfold afterTimeout
        split
        · exact settled_ended rfl
        · exact settled_ended rfl
        · exact ⟨fun _ => future_cancelFuture hf, nofun, fun _ => nofun, fun _ => hexp⟩
      · exact settled_ended rfl
    · cases h
  · split at h
    · cases h
      exact settled_ended rfl
    · cases h

theorem settled_resume {s : State M} {c : Call M} {more : Bool} {p : State M × Call M} (hc : Settled s c)
    (h : s.resume c more = some p) : Settled p.1 p.2 := by
  unfold resume at h
  split at h
  · next hp => exact settled_getNext (hc.future (by rw [hp]; nofun)) h
  · obtain ⟨r, -, rfl⟩ := Option.map_eq_some_iff.1 h
    split <;> exact settled_ended rfl
  · next hp =>
    split at h <;> cases h
    · exact settled_ended rfl
    · exact settled_poll rfl (hc.future (by rw [hp]; nofun))
  · obtain ⟨r, hr, rfl⟩ := Option.map_eq_some_iff.1 h
    obtain ⟨r₀, hr₀, -⟩ := Option.map_eq_some_iff.1 hr
    exact settled_waitFinally hr₀
  · next out hp => exact absurd hp (hc.notCleaning out)
  · cases h

theorem settled_cancelCall {s : State M} {c : Call M} {p : State M × Call M} (hc : Settled s c)
    (h : s.cancelCall c = some p) : Settled p.1 p.2 ∧ p.2.expired = c.expired := by
  have hawait : c.phase.Suspended → Settled (s.cancelAwait c).1 (s.cancelAwait c).2 ∧
      (s.cancelAwait c).2.expired = c.expired := fun hs => by
    unfold cancelAwait
    split
    · next r hr => exact ⟨⟨fun _ => hc.future hs, hc.notCleaning, fun _ _ => by rw [hr]; nofun, hc.expired⟩, rfl⟩
    · exact ⟨hc.keep (keeps_cancelFuture s), rfl⟩
  unfold cancelCall at h
  cases hp : c.phase with
  | getting =>
    simp only [hp, Option.some.injEq] at h
    subst h
    exact ⟨settled_getting (.inl rfl) (hc.future (by rw [hp]; nofun)), rfl⟩
  | polling =>
    simp only [hp, Option.some.injEq] at h
    subst h
    exact ⟨settled_getting (.inr rfl) (hc.future (by rw [hp]; nofun)), rfl⟩
  | stopping | waiting | cleaning =>
    simp only [hp, Option.some.injEq] at h
    subst h
    exact hawait (by rw [hp]; nofun)
  | ended =>
    simp only [hp] at h
    cases h

theorem settled_expire {s : State M} {c : Call M} {p : State M × Call M} (hc : Settled s c)
    (h : s.expire c = some p) : Settled p.1 p.2 := by
  have hq : ∀ q, s.cancelCall c = some q → Settled q.1 { q.2 with expired := true } := fun q hq => by
    obtain ⟨hs, -⟩ := settled_cancelCall hc hq
    exact ⟨hs.future, hs.notCleaning, hs.mustCancel, fun _ => rfl⟩
  unfold expire at h
  split at h
  · obtain ⟨q, hcall, rfl⟩ := Option.map_eq_some_iff.1 h
    exact hq q hcall
  · obtain ⟨q, hcall, rfl⟩ := Option.map_eq_some_iff.1 h
    exact hq q hcall
  · cases h

/-- Every call is settled. -/
def AllSettled (s : State M) : Prop := ∀ c ∈ s.calls, Settled s c

theorem settled_turn {s s₁ : State M} {a : Action M} {i : Nat} {c : Call M} (h : AllSettled s)
    (ht : turn s a = some (s₁, i, c)) : Settled s₁ c := by
  cases a with
  | call op =>
    cases ht
    exact settled_begin s op
  | resume j more =>
    obtain ⟨c₀, hc₀, ht⟩ := Option.bind_eq_some_iff.1 ht
    obtain ⟨p, hp, heq⟩ := Option.map_eq_some_iff.1 ht
    cases heq
    exact settled_resume (h c₀ (List.mem_of_getElem? hc₀)) hp
  | expire j =>
    obtain ⟨c₀, hc₀, ht⟩ := Option.bind_eq_some_iff.1 ht
    obtain ⟨p, hp, heq⟩ := Option.map_eq_some_iff.1 ht
    cases heq
    exact settled_expire (h c₀ (List.mem_of_getElem? hc₀)) hp
  | cancel j =>
    obtain ⟨c₀, hc₀, ht⟩ := Option.bind_eq_some_iff.1 ht
    obtain ⟨p, hp, heq⟩ := Option.map_eq_some_iff.1 ht
    cases heq
    exact (settled_cancelCall (h c₀ (List.mem_of_getElem? hc₀)) hp).1
  | app a => cases ht

/-- A turn keeps the other calls, and what the application has done. -/
theorem keeps_turn {s s₁ : State M} {a : Action M} {i : Nat} {c : Call M} (ht : turn s a = some (s₁, i, c)) :
    Keeps s s₁ ∧ s₁.calls = s.calls := by
  cases hs : a.sendsInput with
  | false =>
    have hd := delivers_turn ht hs
    exact ⟨hd.keeps, hd.calls⟩
  | true =>
    cases a with
    | call op =>
      cases op with
      | sendInput m =>
        cases ht
        obtain ⟨e, -, hq⟩ | ⟨-, hq⟩ := sendInput_cases s m
        · rw [State.begin, hq]
          exact ⟨keeps_ensure s, rfl⟩
        · rw [State.begin, hq]
          exact ⟨⟨(keeps_ensure s).future, (keeps_ensure s).result⟩, rfl⟩
      | _ => cases hs
    | _ => cases hs

theorem keeps_appStep {s s' : State M} {b : AppAction M} (h : s.appStep b = some s') :
    Keeps s s' ∧ s'.calls = s.calls := by
  rw [appStep, Option.bind_eq_some_iff] at h
  obtain ⟨app, happ, h⟩ := h
  have hnot : app.pc = .created ∨ app.pc = .started → ∀ r, s.result ≠ some r := fun hpc r hr => by
    unfold State.result at hr
    rw [happ] at hr
    split at hr
    · next heq =>
      cases heq
      rcases hpc with hpc | hpc <;> cases hpc
    · cases hr
  split at h
  · next hpc =>
    cases h
    exact ⟨⟨fun _ => nofun, fun r hr => absurd hr (hnot (.inl hpc) r)⟩, rfl⟩
  · cases h
  · cases h
  · split at h <;> cases h
    exact ⟨⟨id, fun _ => id⟩, rfl⟩
  · cases h
    exact ⟨⟨id, fun _ => id⟩, rfl⟩
  · next hpc =>
    split at h <;> cases h
    exact ⟨⟨fun _ => nofun, fun r hr => absurd hr (hnot (.inr hpc) r)⟩, rfl⟩
  · next hpc =>
    cases h
    exact ⟨⟨fun _ => nofun, fun r hr => absurd hr (hnot (.inr hpc) r)⟩, rfl⟩
  · cases h
  · cases h

theorem keeps_step {s s' : State M} {a : Action M} (h : machine.step s a = some s') : Keeps s s' := by
  obtain ⟨s₁, i, c, ht, rfl⟩ | ⟨b, rfl, hb⟩ := step_cases h
  · exact ⟨(keeps_turn ht).1.future, (keeps_turn ht).1.result⟩
  · exact (keeps_appStep hb).1

theorem mem_setCall {s : State M} {i : Nat} {c c' : Call M} (h : c' ∈ (s.setCall i c).calls) : c' = c ∨ c' ∈ s.calls := by
  unfold setCall at h
  dsimp only at h
  split at h
  · exact (List.mem_or_eq_of_mem_set h).symm
  · rcases List.mem_append.1 h with h | h
    · exact .inr h
    · exact .inl (List.mem_singleton.1 h)

theorem settled_step {s s' : State M} {a : Action M} (h : AllSettled s) (hstep : machine.step s a = some s') :
    AllSettled s' := by
  intro c hc
  have hk := keeps_step hstep
  obtain ⟨s₁, i, c₁, ht, rfl⟩ | ⟨b, rfl, hb⟩ := step_cases hstep
  · rcases mem_setCall hc with rfl | hc
    · have hs := settled_turn h ht
      exact ⟨hs.future, hs.notCleaning, hs.mustCancel, hs.expired⟩
    · rw [(keeps_turn ht).2] at hc
      exact (h c hc).keep hk
  · rw [(keeps_appStep hb).2] at hc
    exact (h c hc).keep hk

theorem settled_run {s : State M} {as : List (Action M)} (hrun : machine.run {} as = some s) : AllSettled s :=
  machine.run_invariant (fun _ _ _ h hs => settled_step h hs) (fun c hc => by cases hc) hrun

/-! ### What the methods return -/

theorem result_ensure (s : State M) : s.ensure.result = s.result := by
  unfold State.result ensure
  cases s.future <;> rfl

/-- The turn is one of the call `i`, which `wait` has made. -/
def OfWait (s : State M) (a : Action M) (i : Nat) : Prop :=
  a = .call .wait ∨ ∃ c, s.calls[i]? = some c ∧ (c.phase = .waiting ∨ ∃ out, c.phase = .cleaning out)

/-- A turn that ends a call is the call's first, or goes on with it. -/
theorem returns_cases {s : State M} {a : Action M} {i : Nat} {r : Result (Answer M)} (h : returns s a = some (i, r)) :
    (∃ op, a = .call op ∧ i = s.calls.length ∧ (s.begin op).2.phase = .ended r) ∨
      ∃ more c p, a = .resume i more ∧ s.calls[i]? = some c ∧ s.resume c more = some p ∧ p.2.phase = .ended r := by
  have hsome : ∃ s₁ j c, turn s a = some (s₁, j, c) := by
    unfold returns at h
    split at h
    · next s₁ j _ _ _ ht => exact ⟨s₁, j, _, ht⟩
    · cases h
  obtain ⟨s₁, j, c, ht⟩ := hsome
  obtain ⟨rfl, hp⟩ := (returns_eq_some ht i r).1 h
  cases a with
  | call op =>
    cases ht
    exact .inl ⟨op, rfl, rfl, hp⟩
  | resume k more =>
    obtain ⟨c₀, hc₀, ht⟩ := Option.bind_eq_some_iff.1 ht
    obtain ⟨p, hres, heq⟩ := Option.map_eq_some_iff.1 ht
    cases heq
    exact .inr ⟨more, c₀, p, rfl, hc₀, hres, hp⟩
  | expire k =>
    obtain ⟨c₀, hc₀, ht⟩ := Option.bind_eq_some_iff.1 ht
    obtain ⟨p, hexp, heq⟩ := Option.map_eq_some_iff.1 ht
    cases heq
    have hsame := (delivers_expire hexp).2
    unfold expire at hexp
    rw [← hsame, hp] at hexp
    cases hexp
  | cancel k =>
    obtain ⟨c₀, hc₀, ht⟩ := Option.bind_eq_some_iff.1 ht
    obtain ⟨p, hcan, heq⟩ := Option.map_eq_some_iff.1 ht
    cases heq
    have hsame := (delivers_cancelCall hcan).2
    unfold cancelCall at hcan
    rw [← hsame, hp] at hcan
    cases hcan
  | app b => cases ht

/-- A `CancelledError` that is passed over leaves a block whatever the timeout says. -/
theorem leave_passCancelled (expired : Bool) (r : Result Unit) : leave expired (passCancelled r) = passCancelled r := by
  refine leave_of_ne ?_
  unfold passCancelled
  split
  · nofun
  · next hr => exact fun h => hr h

theorem phase_waitFinally {s : State M} {c : Call M} {r r₀ : Result Unit} (h : s.result = some r₀) :
    (s.waitFinally c r).2.phase = .ended ((passCancelled r).map fun _ => .none) := by
  unfold waitFinally
  rw [h, leave_passCancelled]

/-- **How `wait` ends.**  In every run, whatever times out or is cancelled meanwhile, `finally` finds the application
done, so that the call never waits there; and what the call ends with is what the application has ended with, except
that it returns after a `CancelledError`, be it the application's or one that came over the call once the application
was done.  In particular its own timeout never raises. -/
theorem wait_returns {s s' : State M} {as : List (Action M)} {a : Action M} {i : Nat} {r : Result (Answer M)}
    (hrun : machine.run {} as = some s) (hstep : machine.step s a = some s') (hret : returns s a = some (i, r))
    (hwait : OfWait s a i) : (∀ c ∈ s.calls, ∀ out, c.phase ≠ .cleaning out) ∧ ∃ r₀, s'.result = some r₀ ∧
      (r = (passCancelled r₀).map (fun _ => .none) ∨
        ∃ c, s.calls[i]? = some c ∧ c.mustCancel = true ∧ r = .ok .none) := by
  have hall := settled_run hrun
  refine ⟨fun c hc => (hall c hc).notCleaning, ?_⟩
  obtain ⟨op, rfl, hi, hp⟩ | ⟨more, c, p, rfl, hc, hres, hp⟩ := returns_cases hret
  · obtain h | ⟨c, hc, -⟩ := hwait
    · cases h
      change s.wait.2.phase = _ at hp
      unfold State.wait at hp
      rw [result_ensure] at hp
      cases hr : s.result with
      | none =>
        rw [hr] at hp
        cases hp
      | some r₀ =>
        rw [hr] at hp
        rw [phase_waitFinally ((result_ensure s).trans hr)] at hp
        cases hp
        exact ⟨r₀, (keeps_step hstep).result r₀ hr, .inl rfl⟩
    · rw [hi, List.getElem?_eq_none (Nat.le_refl _)] at hc
      cases hc
  · have hphase : c.phase = .waiting := by
      obtain h | ⟨c', hc', hp' | ⟨out, hp'⟩⟩ := hwait
      · cases h
      · cases hc.symm.trans hc'
        exact hp'
      · cases hc.symm.trans hc'
        exact absurd hp' ((hall c (List.mem_of_getElem? hc)).notCleaning out)
    unfold resume at hres
    rw [hphase] at hres
    obtain ⟨r', hr', rfl⟩ := Option.map_eq_some_iff.1 hres
    obtain ⟨r₀, hr₀, rfl⟩ := Option.map_eq_some_iff.1 hr'
    rw [phase_waitFinally hr₀] at hp
    cases hp
    refine ⟨r₀, (keeps_step hstep).result r₀ hr₀, ?_⟩
    cases hm : c.mustCancel with
    | true => exact .inr ⟨c, hc, hm, rfl⟩
    | false => exact .inl rfl

/-- The application fails while a call of `wait` is suspended. -/
def failing : List (Action Nat) := [.call .wait, .app .start, .app (.finish (.error (.other 3)))]

theorem wait_failing : ∃ s s', machine.run {} failing = some s ∧ machine.step s (.resume 0 false) = some s' ∧
    (∀ c ∈ s.calls, ∀ out, c.phase ≠ .cleaning out) ∧ ∃ r₀, s'.result = some r₀ ∧
      ((.error (.other 3) : Result (Answer Nat)) = (passCancelled r₀).map (fun _ => .none) ∨
        ∃ c, s.calls[(0 : Nat)]? = some c ∧ c.mustCancel = true ∧ (.error (.other 3) : Result (Answer Nat)) = .ok .none) :=
  ⟨_, _, rfl, rfl, @wait_returns _ _ _ failing (.resume 0 false) 0 (.error (.other 3)) rfl rfl rfl
    (.inr ⟨_, rfl, .inl rfl⟩)⟩

theorem passCancelled_eq_error {r : Result Unit} {e : Exn} (h : passCancelled r = .error e) : r = .error e := by
  unfold passCancelled at h
  split at h
  · cases h
  · exact h

/-- A `CancelledError` that leaves the block of a timeout. -/
theorem leave_cancelledError {expired : Bool} {e : Exn}
    (h : (leave expired (.error .cancelledError) : Result Unit) = .error e) :
    expired = true ∧ e = timeoutError ∨ expired = false ∧ e = .cancelledError := by
  cases expired with
  | true =>
    cases h
    exact .inl ⟨rfl, rfl⟩
  | false =>
    cases h
    exact .inr ⟨rfl, rfl⟩

/-- The turn is one of the call `i`, which `receive_output` has made. -/
def OfReceiveOutput (s : State M) (a : Action M) (i : Nat) : Prop :=
  a = .call .receiveOutput ∨ ∃ c, s.calls[i]? = some c ∧ (c.phase = .getting ∨ c.phase = .stopping)

/-- The call `i` has timed out. -/
def TimedOut (s : State M) (i : Nat) : Prop := ∃ c, s.calls[i]? = some c ∧ c.expired = true

/-- **How `receive_output` raises.**  In every run it raises what the application has ended with, a `CancelledError`
that has come over the call, or `TimeoutError` after its timeout; and with `TimeoutError` it leaves the application
done. -/
theorem receive_output_raises {s s' : State M} {as : List (Action M)} {a : Action M} {i : Nat} {e : Exn}
    (hrun : machine.run {} as = some s) (hstep : machine.step s a = some s') (hret : returns s a = some (i, .error e))
    (hreceive : OfReceiveOutput s a i) :
    s'.result = some (.error e) ∨
      (e = .cancelledError ∧ ¬ TimedOut s i ∧ ∃ c, s.calls[i]? = some c ∧ c.mustCancel = true) ∨
      e = timeoutError ∧ TimedOut s i ∧ s'.result ≠ none := by
  have hall := settled_run hrun
  have hkeep := keeps_step hstep
  obtain ⟨op, rfl, hi, hp⟩ | ⟨more, c, p, rfl, hc, hres, hp⟩ := returns_cases hret
  · obtain h | ⟨c, hc, -⟩ := hreceive
    · cases h
      change s.receiveOutput.2.phase = _ at hp
      unfold receiveOutput check at hp
      rw [result_ensure] at hp
      cases hr : s.result with
      | none =>
        rw [hr] at hp
        dsimp only [Option.getD_none] at hp
        split at hp <;> cases hp
      | some r =>
        rw [hr] at hp
        cases r with
        | error e' =>
          cases hp
          exact .inl (hkeep.result _ hr)
        | ok u =>
          dsimp only [Option.getD_some] at hp
          split at hp <;> cases hp
    · rw [hi, List.getElem?_eq_none (Nat.le_refl _)] at hc
      cases hc
  · have hphase : c.phase = .getting ∨ c.phase = .stopping := by
      obtain h | ⟨c', hc', hp'⟩ := hreceive
      · cases h
      · cases hc.symm.trans hc'
        exact hp'
    unfold resume at hres
    rcases hphase with hphase | hphase <;> rw [hphase] at hres
    · -- the `get` was cancelled
      change s.getNext c = some p at hres
      unfold getNext at hres
      split at hres
      · next hm =>
        split at hres
        · next e' he' =>
          rcases leave_cancelledError he' with ⟨hx, rfl⟩ | ⟨hx, rfl⟩
          · rw [if_pos rfl] at hres
            cases hres
            unfold afterTimeout at hp
            split at hp
            · next e₁ hr =>
              cases hp
              exact .inl (hkeep.result _ hr)
            · next hr =>
              cases hp
              exact .inr (.inr ⟨rfl, ⟨c, hc, hx⟩, by rw [hkeep.result _ hr]; nofun⟩)
            · cases hp
          · rw [if_neg (by decide)] at hres
            cases hres
            cases hp
            refine .inr (.inl ⟨rfl, fun ⟨c', hc', hx'⟩ => ?_, c, hc, hm⟩)
            cases hc.symm.trans hc'
            rw [hx] at hx'
            cases hx'
        · cases hres
      · split at hres
        · cases hres
          cases hp
        · cases hres
    · -- the application was cancelled
      change s.afterStop c = some p at hres
      obtain ⟨r, hr, rfl⟩ := Option.map_eq_some_iff.1 hres
      obtain ⟨r₀, hr₀, rfl⟩ := Option.map_eq_some_iff.1 hr
      split at hp
      · next e' he' =>
        cases hp
        by_cases hm : c.mustCancel = true
        · rw [if_pos hm] at he'
          cases he'
        · rw [if_neg hm] at he'
          rw [passCancelled_eq_error he'] at hr₀
          exact .inl (hkeep.result _ hr₀)
      · cases hp
        exact .inr (.inr ⟨rfl, ⟨c, hc, (hall c (List.mem_of_getElem? hc)).expired hphase⟩, by
          rw [hkeep.result _ hr₀]; nofun⟩)

/-- The application does not answer in time, and ends when it is cancelled. -/
def silent : List (Action Nat) :=
  [.call .receiveOutput, .app .start, .expire 0, .resume 0 false, .app .cancelled, .app (.finish (.ok ()))]

theorem receive_output_silent : ∃ s s', machine.run {} silent = some s ∧ machine.step s (.resume 0 false) = some s' ∧
    TimedOut s 0 ∧ s'.result ≠ none := by
  refine ⟨_, _, rfl, rfl, ?_⟩
  obtain h | ⟨h, -⟩ | ⟨-, h⟩ := @receive_output_raises _ _ _ silent (.resume 0 false) 0 timeoutError rfl rfl rfl
    (.inr ⟨_, rfl, .inr rfl⟩)
  · cases h
  · exact absurd h (by decide)
  · exact h

/-! ### After a failure -/

/-- The methods that look at the application first. -/
def Op.checks : Op M → Bool
  | .sendInput _ | .receiveOutput | .receiveNothing _ => true
  | .future | .wait | .stop _ => false

/-- A method that looks at an application that has failed raises what that has raised. -/
theorem begin_of_failed {s : State M} {e : Exn} (hr : s.result = some (.error e)) {op : Op M} (hop : op.checks = true) :
    s.begin op = (s.ensure, .over (.error e)) := by
  have hcheck : s.ensure.check = .error e := by rw [check, result_ensure, hr, Option.getD_some]
  cases op with
  | sendInput m => simp only [State.begin, sendInput, hcheck]
  | receiveOutput => simp only [State.begin, receiveOutput, hcheck]
  | receiveNothing more => simp only [State.begin, receiveNothing, hcheck]
  | _ => cases hop

/-- Only `send_input` puts something into the input. -/
theorem visible_eq_put_input {s : State M} {a : Action M} {m : M} (h : visible s a = some (.put .input m)) :
    a = .call (.sendInput m) := by
  unfold visible at h
  split at h
  · cases h
    rfl
  · obtain ⟨x, -, hx⟩ := Option.map_eq_some_iff.1 h
    cases hx
  · cases h
  · cases h
  · cases h

/-- **After a failure.**  Once the application has ended with an exception, in every run from there, nothing is put
into the input any more, and every call of `send_input`, `receive_output` and `receive_nothing` raises that exception
at once and leaves the queues alone, whatever is in them. -/
theorem refused_after_failure {s t : State M} {as : List (Action M)} {e : Exn} (hr : s.result = some (.error e))
    (hrun : machine.run s as = some t) : puts .input (machine.trace visible s as) = [] ∧
      ∀ op : Op M, op.checks = true → returns t (.call op) = some (t.calls.length, .error e) ∧
        visible t (.call op) = none := by
  have hrefuse : ∀ u : State M, u.result = some (.error e) → ∀ op : Op M, op.checks = true →
      returns u (.call op) = some (u.calls.length, .error e) ∧ visible u (.call op) = none := by
    intro u hu op hop
    have hret : returns u (.call op) = some (u.calls.length, .error e) :=
      (returns_eq_some (show turn u (.call op) = some (_, _, _) from rfl) _ _).2
        ⟨rfl, by rw [begin_of_failed hu hop]; rfl⟩
    refine ⟨hret, ?_⟩
    unfold visible
    rw [hret]
    cases op <;> rfl
  have hkeep : ∀ (u v : State M) (bs : List (Action M)), u.result = some (.error e) → machine.run u bs = some v →
      v.result = some (.error e) := fun u v bs hu hb =>
    machine.run_invariant (fun x a y hx hxy => (keeps_step hxy).result _ hx) hu hb
  refine ⟨?_, fun op hop => hrefuse t (hkeep s t as hr hrun) op hop⟩
  induction as generalizing s with
  | nil => rfl
  | cons a as ih =>
    obtain ⟨u, hu, hrest⟩ := machine.run_cons_eq_some.1 hrun
    have hnext := ih ((keeps_step hu).result _ hr) hrest
    have hno : ∀ m, visible s a ≠ some (.put .input m) := fun m hv => by
      rw [visible_eq_put_input hv, (hrefuse s hr (.sendInput m) rfl).2] at hv
      cases hv
    rw [Machine.trace, hu, puts_append, hnext, List.append_nil]
    cases hv : visible s a with
    | none => rfl
    | some ev =>
      cases ev with
      | get q m => rfl
      | put q m =>
        cases q with
        | input => exact absurd hv (hno m)
        | output => rfl

theorem refused_failing : ∃ s t, machine.run {} failing = some s ∧ machine.run s [.call (.sendInput 5)] = some t ∧
    puts .input (machine.trace visible s [.call (.sendInput 5)]) = [] ∧
      ∀ op : Op Nat, op.checks = true → returns t (.call op) = some (t.calls.length, .error (.other 3)) ∧
        visible t (.call op) = none :=
  ⟨_, _, rfl, rfl, refused_after_failure rfl rfl⟩

end Asgiref.Testing
