import Asgiref.Testing.ApplicationCommunicator

/-!
# What goes through the queues of an `ApplicationCommunicator`

* `visible` — the messages that calls and the application put and get, read off what the calls return;
* `Delivers` — what a step of a call does to the queues;
* `channels` — both queues are first in, first out, in every run;
* `receive_nothing_iff` — what `receive_nothing` tells about the run so far.
-/

namespace Asgiref.Testing

open Asgiref.Python Asgiref.Lib Asgiref.Timeouts State

variable {M : Type}

inductive Queue where
  | input
  | output
  deriving DecidableEq

/-- What the queues hold. -/
def State.queues (s : State M) : Queue → List M
  | .input => s.input
  | .output => s.output

/-- A message that `send_input` has accepted, one that `receive_output` returns, and what the application receives
and sends. -/
def visible (s : State M) (a : Action M) : Option (ChannelEvent Queue M) :=
  match a, returns s a with
  | .call (.sendInput m), some (_, .ok _) => some (.put .input m)
  | .app .receive, _ => s.input.head?.map (.get .input)
  | .app (.send m), _ => some (.put .output m)
  | _, some (_, .ok (.message m)) => some (.get .output m)
  | _, _ => none

/-! ### Small facts -/

@[simp] theorem input_ensure (s : State M) : s.ensure.input = s.input := rfl
@[simp] theorem output_ensure (s : State M) : s.ensure.output = s.output := rfl
@[simp] theorem calls_ensure (s : State M) : s.ensure.calls = s.calls := rfl

theorem cancelFuture_parts (s : State M) :
    s.cancelFuture.input = s.input ∧ s.cancelFuture.output = s.output ∧ s.cancelFuture.calls = s.calls := by
  unfold cancelFuture
  split <;> exact ⟨rfl, rfl, rfl⟩

/-- The task of the application is made once, and what it ends with stays. -/
structure Keeps (s s' : State M) : Prop where
  future : s.future ≠ none → s'.future ≠ none
  result : ∀ r, s.result = some r → s'.result = some r

theorem keeps_refl (s : State M) : Keeps s s := ⟨id, fun _ => id⟩

theorem keeps_ensure (s : State M) : Keeps s s.ensure := by
  refine ⟨fun _ => nofun, fun r hr => ?_⟩
  unfold State.result at hr ⊢
  unfold ensure
  cases hf : s.future with
  | none =>
    rw [hf] at hr
    cases hr
  | some app =>
    rw [hf] at hr
    exact hr

theorem keeps_cancelFuture (s : State M) : Keeps s s.cancelFuture := by
  have hcase : s.cancelFuture = s ∨ s.result = none ∧ s.cancelFuture.future ≠ none := by
    unfold cancelFuture State.result
    split
    · exact .inl rfl
    · exact .inl rfl
    · next app hno hf =>
      refine .inr ⟨?_, nofun⟩
      split
      · next h => exact absurd (Option.some.inj (hf.symm.trans h)) (hno _ _)
      · rfl
  obtain heq | ⟨hr, hf⟩ := hcase
  · rw [heq]
    exact keeps_refl s
  · refine ⟨fun _ => hf, fun r h => ?_⟩
    rw [hr] at h
    cases h

/-- The call does not end with what it has found in the output. -/
structure Phase.Silent (p : Phase M) : Prop where
  message : ∀ m, p ≠ .ended (.ok (.message m))
  nothing : ∀ b, p ≠ .ended (.ok (.nothing b))

/-- A step of a call takes the message it returns from the output, and changes the queues in no other way; the
Boolean it returns tells whether the output is empty. -/
structure Delivers (s : State M) (p : State M × Call M) : Prop where
  input : p.1.input = s.input
  calls : p.1.calls = s.calls
  output : (∃ m, s.output = m :: p.1.output ∧ p.2.phase = .ended (.ok (.message m))) ∨
    p.1.output = s.output ∧ ∀ m, p.2.phase ≠ .ended (.ok (.message m))
  nothing : ∀ b, p.2.phase = .ended (.ok (.nothing b)) → b = s.output.isEmpty
  keeps : Keeps s p.1

theorem delivers_same {s : State M} {c : Call M} (h : c.phase.Silent) : Delivers s (s, c) :=
  ⟨rfl, rfl, .inr ⟨rfl, h.message⟩, fun b hb => absurd hb (h.nothing b), keeps_refl s⟩

theorem delivers_cancelFuture {s : State M} {c : Call M} (h : c.phase.Silent) : Delivers s (s.cancelFuture, c) := by
  obtain ⟨hi, ho, hc⟩ := cancelFuture_parts s
  exact ⟨hi, hc, .inr ⟨ho, h.message⟩, fun b hb => absurd hb (h.nothing b), keeps_cancelFuture s⟩

theorem delivers_head {s : State M} {c : Call M} {m : M} {rest : List M} (ho : s.output = m :: rest)
    (hc : c.phase = .ended (.ok (.message m))) : Delivers s ({ s with output := rest }, c) := by
  refine ⟨rfl, rfl, .inl ⟨m, ho, hc⟩, fun b hb => ?_, id, fun _ => id⟩
  rw [hc] at hb
  cases hb

theorem delivers_ensure {s : State M} {p : State M × Call M} (h : Delivers s.ensure p) : Delivers s p :=
  ⟨h.input, h.calls, h.output, h.nothing, fun hf => h.keeps.future ((keeps_ensure s).future hf),
    fun r hr => h.keeps.result r ((keeps_ensure s).result r hr)⟩

theorem silent_map (r : Result Unit) : (Phase.ended (r.map fun _ => (Answer.none : Answer M))).Silent := by
  cases r <;> exact ⟨nofun, nofun⟩

theorem delivers_receiveOutput (s : State M) : Delivers s s.receiveOutput := by
  unfold receiveOutput
  split
  · exact delivers_ensure (delivers_same ⟨nofun, nofun⟩)
  · split
    · next m rest ho => exact delivers_ensure (delivers_head ho rfl)
    · exact delivers_ensure (delivers_same ⟨nofun, nofun⟩)

theorem delivers_afterTimeout (s : State M) (c : Call M) : Delivers s (s.afterTimeout c) := by
  unfold afterTimeout
  split
  · exact delivers_same ⟨nofun, nofun⟩
  · exact delivers_same ⟨nofun, nofun⟩
  · exact delivers_cancelFuture ⟨nofun, nofun⟩

theorem delivers_getNext {s : State M} {c : Call M} {p : State M × Call M} (h : s.getNext c = some p) : Delivers s p := by
  unfold getNext at h
  split at h
  · split at h
    · split at h <;> cases h
      · exact delivers_afterTimeout s c
      · exact delivers_same ⟨nofun, nofun⟩
    · cases h
  · split at h
    · next m rest ho =>
      cases h
      exact delivers_head ho rfl
    · cases h

theorem delivers_afterStop {s : State M} {c : Call M} {p : State M × Call M} (h : s.afterStop c = some p) :
    Delivers s p := by
  obtain ⟨r, -, rfl⟩ := Option.map_eq_some_iff.1 h
  split <;> exact delivers_same ⟨nofun, nofun⟩

/-- The loop of `receive_nothing` goes on, or ends with whether the output is empty. -/
theorem poll_cases (s : State M) (more : Bool) :
    s.poll more = .polling ∨ s.poll more = .ended (.ok (.nothing s.output.isEmpty)) := by
  unfold poll
  cases more with
  | true => cases he : s.output.isEmpty <;> simp
  | false => exact .inr rfl

theorem delivers_poll (s : State M) {c : Call M} (more : Bool) (hc : c.phase = s.poll more) : Delivers s (s, c) := by
  have hpoll := poll_cases s more
  rw [← hc] at hpoll
  obtain hp | hp := hpoll
  · exact delivers_same (by rw [hp]; exact ⟨nofun, nofun⟩)
  · refine ⟨rfl, rfl, .inr ⟨rfl, fun m h => ?_⟩, fun b hb => ?_, keeps_refl s⟩
    · rw [hp] at h
      cases h
    · rw [hp] at hb
      cases hb
      rfl

theorem delivers_receiveNothing (s : State M) (more : Bool) : Delivers s (s.receiveNothing more) := by
  unfold receiveNothing
  split
  · exact delivers_ensure (delivers_same ⟨nofun, nofun⟩)
  · exact delivers_ensure (delivers_poll s.ensure more rfl)

theorem delivers_waitFinally (s : State M) (c : Call M) (r : Result Unit) : Delivers s (s.waitFinally c r) := by
  unfold waitFinally
  dsimp only
  split
  · exact delivers_cancelFuture ⟨nofun, nofun⟩
  · exact delivers_same (silent_map _)

theorem delivers_wait (s : State M) : Delivers s s.wait := by
  unfold wait
  split
  · exact delivers_ensure (delivers_waitFinally _ _ _)
  · exact delivers_ensure (delivers_same ⟨nofun, nofun⟩)

theorem delivers_afterCleaning {s : State M} {c : Call M} {out : Result Unit} {p : State M × Call M}
    (h : s.afterCleaning c out = some p) : Delivers s p := by
  obtain ⟨r, -, rfl⟩ := Option.map_eq_some_iff.1 h
  split
  · exact delivers_same ⟨nofun, nofun⟩
  · exact delivers_same (silent_map out)

theorem delivers_stop (s : State M) (exceptions : Bool) : Delivers s (s.stop exceptions) := by
  unfold stop
  split
  · exact delivers_cancelFuture ⟨nofun, nofun⟩
  · cases exceptions with
    | true => exact delivers_same (silent_map _)
    | false => exact delivers_same ⟨nofun, nofun⟩

theorem delivers_resume {s : State M} {c : Call M} {more : Bool} {p : State M × Call M} (h : s.resume c more = some p) :
    Delivers s p := by
  unfold resume at h
  split at h
  · exact delivers_getNext h
  · exact delivers_afterStop h
  · split at h <;> cases h
    · exact delivers_same ⟨nofun, nofun⟩
    · exact delivers_poll s more rfl
  · obtain ⟨r, -, rfl⟩ := Option.map_eq_some_iff.1 h
    exact delivers_waitFinally s c r
  · exact delivers_afterCleaning h
  · cases h

/-- A cancellation leaves a call where it is suspended. -/
theorem delivers_cancelCall {s : State M} {c : Call M} {p : State M × Call M} (h : s.cancelCall c = some p) :
    Delivers s p ∧ p.2.phase = c.phase := by
  have hawait : c.phase.Silent → Delivers s (s.cancelAwait c) ∧ (s.cancelAwait c).2.phase = c.phase := fun hp => by
    unfold cancelAwait
    split
    · exact ⟨delivers_same hp, rfl⟩
    · exact ⟨delivers_cancelFuture hp, rfl⟩
  unfold cancelCall at h
  cases hp : c.phase with
  | getting | polling =>
    simp only [hp, Option.some.injEq] at h
    subst h
    exact ⟨delivers_same ⟨by simp, by simp⟩, rfl⟩
  | stopping | waiting | cleaning =>
    simp only [hp, Option.some.injEq] at h
    subst h
    rw [← hp]
    exact hawait ⟨by simp [hp], by simp [hp]⟩
  | ended =>
    simp only [hp] at h
    cases h

theorem delivers_expire {s : State M} {c : Call M} {p : State M × Call M} (h : s.expire c = some p) :
    Delivers s p ∧ p.2.phase = c.phase := by
  unfold expire at h
  split at h
  · obtain ⟨q, hq, rfl⟩ := Option.map_eq_some_iff.1 h
    obtain ⟨hd, hp⟩ := delivers_cancelCall hq
    exact ⟨⟨hd.input, hd.calls, hd.output, hd.nothing, hd.keeps⟩, hp⟩
  · obtain ⟨q, hq, rfl⟩ := Option.map_eq_some_iff.1 h
    obtain ⟨hd, hp⟩ := delivers_cancelCall hq
    exact ⟨⟨hd.input, hd.calls, hd.output, hd.nothing, hd.keeps⟩, hp⟩
  · cases h

/-! ### The events of a step -/

/-- The action is a call of `send_input`. -/
def Action.sendsInput : Action M → Bool
  | .call (.sendInput _) => true
  | _ => false

/-- The step of a call, other than `send_input`. -/
theorem delivers_turn {s s' : State M} {a : Action M} {i : Nat} {c : Call M} (h : turn s a = some (s', i, c))
    (ha : a.sendsInput = false) : Delivers s (s', c) := by
  cases a with
  | call op =>
    cases h
    cases op with
    | future => exact delivers_ensure (delivers_same ⟨nofun, nofun⟩)
    | sendInput m => cases ha
    | receiveOutput => exact delivers_receiveOutput s
    | receiveNothing more => exact delivers_receiveNothing s more
    | wait => exact delivers_wait s
    | stop exceptions => exact delivers_stop s exceptions
  | resume j more =>
    obtain ⟨c₀, -, h⟩ := Option.bind_eq_some_iff.1 h
    obtain ⟨p, hp, heq⟩ := Option.map_eq_some_iff.1 h
    cases heq
    exact delivers_resume hp
  | expire j =>
    obtain ⟨c₀, -, h⟩ := Option.bind_eq_some_iff.1 h
    obtain ⟨p, hp, heq⟩ := Option.map_eq_some_iff.1 h
    cases heq
    exact (delivers_expire hp).1
  | cancel j =>
    obtain ⟨c₀, -, h⟩ := Option.bind_eq_some_iff.1 h
    obtain ⟨p, hp, heq⟩ := Option.map_eq_some_iff.1 h
    cases heq
    exact (delivers_cancelCall hp).1
  | app a => cases h

theorem returns_eq_some {s s' : State M} {a : Action M} {i : Nat} {c : Call M} (h : turn s a = some (s', i, c)) :
    ∀ j r, returns s a = some (j, r) ↔ j = i ∧ c.phase = .ended r := by
  intro j r
  unfold returns
  rw [h]
  obtain ⟨phase, e, mc⟩ := c
  cases phase with
  | ended r' => simp [eq_comm]
  | _ => simp

/-- A step is that of a call, or of the application. -/
theorem step_cases {s s' : State M} {a : Action M} (h : machine.step s a = some s') :
    (∃ s₁ i c, turn s a = some (s₁, i, c) ∧ s' = s₁.setCall i c) ∨ ∃ b, a = .app b ∧ s.appStep b = some s' := by
  cases a with
  | app b => exact .inr ⟨b, rfl, h⟩
  | call | resume | expire | cancel =>
    simp only [machine, step, Option.map_eq_some_iff] at h
    obtain ⟨⟨s₁, i, c⟩, ht, rfl⟩ := h
    exact .inl ⟨s₁, i, c, ht, rfl⟩

theorem queues_eq {s s' : State M} (hi : s'.input = s.input) (ho : s'.output = s.output) : s'.queues = s.queues := by
  funext q
  cases q
  · exact hi
  · exact ho

/-- What happens to one of the queues. -/
theorem other_input {s s' : State M} (hi : s'.input = s.input) : ∀ q, q ≠ .output → s'.queues q = s.queues q
  | .input, _ => hi
  | .output, h => absurd rfl h

theorem other_output {s s' : State M} (ho : s'.output = s.output) : ∀ q, q ≠ .input → s'.queues q = s.queues q
  | .output, _ => ho
  | .input, h => absurd rfl h

theorem fifoStep_appStep {s s' : State M} {b : AppAction M} (h : s.appStep b = some s') :
    FifoStep s.queues (visible s (.app b)) s'.queues := by
  obtain ⟨app, happ, h⟩ := Option.bind_eq_some_iff.1 h
  split at h
  · cases h
    exact queues_eq rfl rfl
  · cases h
  · cases h
  · split at h
    · next m rest hi =>
      cases h
      have hv : visible s (.app .receive) = some (.get .input m) := by simp [visible, hi]
      rw [hv]
      exact .get hi (other_output rfl)
    · cases h
  · next m _ _ =>
    cases h
    have hv : visible s (.app (.send m)) = some (.put .output m) := rfl
    rw [hv]
    exact .put rfl (other_input rfl)
  · split at h
    · cases h
      exact queues_eq rfl rfl
    · cases h
  · cases h
    exact queues_eq rfl rfl
  · cases h
  · cases h

/-- `send_input` raises what the application has raised, or puts the message. -/
theorem sendInput_cases (s : State M) (m : M) :
    (∃ e, s.ensure.check = .error e ∧ s.sendInput m = (s.ensure, .over (.error e))) ∨
      s.ensure.check = .ok () ∧ s.sendInput m = ({ s.ensure with input := s.input ++ [m] }, .over (.ok .none)) := by
  unfold sendInput
  cases s.ensure.check with
  | error e => exact .inl ⟨e, rfl, rfl⟩
  | ok u => exact .inr ⟨rfl, rfl⟩

theorem fifoStep_sendInput (s : State M) (m : M) :
    FifoStep s.queues (visible s (.call (.sendInput m))) (s.sendInput m).1.queues := by
  have hret := returns_eq_some (show turn s (.call (.sendInput m)) = some (_, _, _) from rfl)
  obtain ⟨e, -, hs⟩ | ⟨-, hs⟩ := sendInput_cases s m
  · have hv : visible s (.call (.sendInput m)) = none := by
      unfold visible
      rw [(hret s.calls.length (.error e)).2 ⟨rfl, by rw [State.begin, hs]; rfl⟩]
    rw [hv, hs]
    exact queues_eq rfl rfl
  · have hv : visible s (.call (.sendInput m)) = some (.put .input m) := by
      unfold visible
      rw [(hret s.calls.length (.ok .none)).2 ⟨rfl, by rw [State.begin, hs]; rfl⟩]
    rw [hv, hs]
    exact .put rfl (other_output rfl)

theorem fifoStep_delivers {s s₁ : State M} {a : Action M} {i : Nat} {c : Call M} (ht : turn s a = some (s₁, i, c))
    (ha : a.sendsInput = false) : FifoStep s.queues (visible s a) s₁.queues := by
  obtain ⟨hi, -, hout, -⟩ := delivers_turn ht ha
  have hret := returns_eq_some ht
  obtain ⟨m, ho, hp⟩ | ⟨ho, hno⟩ := hout
  · have hv : visible s a = some (.get .output m) := by
      unfold visible
      rw [(hret i _).2 ⟨rfl, hp⟩]
      cases a with
      | app => cases ht
      | call op => cases op <;> first | rfl | cases ha
      | _ => rfl
    rw [hv]
    exact .get ho (other_input hi)
  · have hv : visible s a = none := by
      have hne : ∀ j m, returns s a ≠ some (j, .ok (.message m)) := fun j m h => hno m ((hret j _).1 h).2
      unfold visible
      split
      · cases ha
      · cases ht
      · cases ht
      · next hj => exact absurd hj (hne _ _)
      · rfl
    rw [hv]
    exact queues_eq hi ho

/-- The queues do not depend on the calls. -/
theorem fifoStep_step {s s' : State M} {a : Action M} (h : machine.step s a = some s') :
    FifoStep s.queues (visible s a) s'.queues := by
  obtain ⟨s₁, i, c, ht, rfl⟩ | ⟨b, rfl, hb⟩ := step_cases h
  · have hm : FifoStep s.queues (visible s a) s₁.queues := by
      cases hs : a.sendsInput with
      | false => exact fifoStep_delivers ht hs
      | true =>
        cases a with
        | call op =>
          cases op with
          | sendInput m =>
            cases ht
            exact fifoStep_sendInput s m
          | _ => cases hs
        | _ => cases hs
    exact hm
  · exact fifoStep_appStep hb

/-- What has happened in a run. -/
def events (as : List (Action M)) : List (ChannelEvent Queue M) := machine.trace visible {} as

/-- **First in, first out.**  In every run of an application and its testers, in any order, the application has
received, of the messages that `send_input` has accepted, all but the ones still in the queue, each once and in their
order; and the calls of `receive_output` have returned, of what the application has sent, all but what is still in the
queue, each message to one call and in its order. -/
theorem channels {s : State M} {as : List (Action M)} (hrun : machine.run {} as = some s) :
    puts .input (events as) = gets .input (events as) ++ s.input ∧
      puts .output (events as) = gets .output (events as) ++ s.output := by
  have h := fifo_of_simulates machine State.queues visible (fun s a s' hs => fifoStep_step hs) hrun
  exact ⟨h .input, h .output⟩

/-- Two messages for an application that has received one of them and answered it. -/
def answered : List (Action Nat) :=
  [.call (.sendInput 1), .call (.sendInput 2), .app .start, .app .receive, .app (.send 7), .call .receiveOutput]

theorem channels_answered : ∃ s, machine.run {} answered = some s ∧ s.input = [2] ∧
    puts .input (events answered) = gets .input (events answered) ++ s.input ∧
      puts .output (events answered) = gets .output (events answered) ++ s.output :=
  ⟨_, rfl, rfl, channels rfl⟩

/-- **What `receive_nothing` tells.**  In every run it returns `True` exactly if all that the application has sent so
far was returned by calls of `receive_output`, and it takes nothing from the queues. -/
theorem receive_nothing_iff {s s' : State M} {as : List (Action M)} {a : Action M} {i : Nat} {b : Bool}
    (hrun : machine.run {} as = some s) (hstep : machine.step s a = some s')
    (hret : returns s a = some (i, .ok (.nothing b))) :
    (b = true ↔ gets .output (events as) = puts .output (events as)) ∧ s'.queues = s.queues := by
  obtain ⟨s₁, j, c, ht, rfl⟩ | ⟨d, rfl, -⟩ := step_cases hstep
  · obtain ⟨rfl, hp⟩ := (returns_eq_some ht i _).1 hret
    have hs : a.sendsInput = false := by
      unfold Action.sendsInput
      split
      · next m =>
        have hc : c = (s.sendInput m).2 := by
          cases ht
          rfl
        rw [hc] at hp
        obtain ⟨e, -, hs⟩ | ⟨-, hs⟩ := sendInput_cases s m <;> rw [hs] at hp <;> cases hp
      · rfl
    have hd := delivers_turn ht hs
    refine ⟨?_, ?_⟩
    · rw [hd.nothing b hp, (channels hrun).2, List.isEmpty_iff]
      simp
    · obtain ⟨m, -, hm⟩ | ⟨ho, -⟩ := hd.output
      · cases hp.symm.trans hm
      · exact queues_eq hd.input ho
  · cases hret

theorem receive_nothing_answered : ∃ s s', machine.run {} answered = some s ∧
    machine.step s (.call (.receiveNothing false)) = some s' ∧
      gets .output (events answered) = puts .output (events answered) := by
  refine ⟨_, _, rfl, rfl, ?_⟩
  have h := @receive_nothing_iff _ _ _ answered (.call (.receiveNothing false)) 3 true rfl rfl rfl
  exact h.1.1 rfl

end Asgiref.Testing
