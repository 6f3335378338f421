import Asgiref.Wsgi.Exchange

/-!
# Call by call and in one go

The adapter together with an application that does what it does by the environ, against `Request.runWsgiApp`, which
takes all that the application does at once and where no `sync_send` raises.

* `Scripted`, `scripted` — the adapter with such an application;
* `next`, `loop_grows` — the `for` loop from one output on;
* `Runs`, `Agrees` — what is left to be done, put after what was done; `agrees_run`;
* `agrees` — what is sent and how the call ends.
-/

namespace Asgiref.Wsgi.Conversation

open Asgiref.Lib Asgiref.Python State

/-- A call, and what its application is still going to do. -/
structure Scripted where
  call : State
  script : List Event × Ending

def Scripted.init (type : Option String) : Scripted := ⟨.init type, ([], .waiting)⟩

/-- What the action leaves of the script. -/
def follow (script : List Event × Ending) : Action → Option (List Event × Ending)
  | .app event =>
    match script with
    | (e :: events, ending) => if e = event then some (events, ending) else none
    | ([], _) => none
  | .returned => if script = ([], .returned) then some script else none
  | .raised e => if script = ([], .raised e) then some script else none
  | _ => some script

section

variable (u : Unicode) (r : Request) (app : Environ → List Event × Ending)

/-- The application is called when there is an environ. -/
def Scripted.step (x : Scripted) (a : Action) : Option Scripted :=
  match Conversation.step u r x.call a, follow x.script a with
  | some s, some script =>
    match a, s.environ with
    | .runWsgiApp, some environ => some ⟨s, app environ⟩
    | _, _ => some ⟨s, script⟩
  | _, _ => none

def scripted : Machine Scripted Action := ⟨Scripted.step u r app⟩

/-- The loop from an output on, once the response has started. -/
def next (run : Run) (output : Bytes) (script : List Event × Ending) : Run × Exit :=
  if some ((sendBody run output).bytesSent : Int) = (sendBody run output).inst.responseContentLength
  then (sendBody run output, .broke) else loop u (sendBody run output) script.2 script.1

end

variable {u : Unicode} {r : Request} {app : Environ → List Event × Ending}

/-! ### The loop -/

theorem loop_started_chunk {run : Run} (h : run.inst.responseStarted = true) (output : Bytes) (ending : Ending)
    (events : List Event) : loop u run ending (.chunk output :: events) = next u run output (events, ending) := by
  rw [loop, sendStart_started h]
  rfl

theorem loop_first_chunk {run run' : Run} (h : sendStart run = (run', .ok ())) (output : Bytes) (ending : Ending)
    (events : List Event) : loop u run ending (.chunk output :: events) = next u run' output (events, ending) := by
  rw [loop, h]
  rfl

theorem sendStart_grows (run : Run) : run.sent <+: (sendStart run).1.sent := by
  unfold sendStart
  split
  · exact List.prefix_rfl
  · split
    · exact List.prefix_rfl
    · exact List.prefix_append ..

theorem close_grows (run : Run) : run.sent <+: (Wsgi.close run).1.sent := by
  have hstart := sendStart_grows run
  unfold Wsgi.close
  rcases hsend : sendStart run with ⟨run', e | _⟩
  · rw [hsend] at hstart
    exact hstart
  · rw [hsend] at hstart
    exact hstart.trans (List.prefix_append ..)

theorem afterLoop_grows (run : Run) (exit : Exit) : run.sent <+: (afterLoop (run, exit)).1.sent := by
  cases exit with
  | exhausted | broke => exact close_grows run
  | raised | waiting => exact List.prefix_rfl

/-- What was sent is the beginning of what is sent in the end. -/
theorem loop_grows (run : Run) (ending : Ending) (events : List Event) :
    run.sent <+: (afterLoop (loop u run ending events)).1.sent := by
  induction events generalizing run with
  | nil => cases ending <;> exact afterLoop_grows run _
  | cons event events ih =>
    cases event with
    | call a => exact ih (callStartResponse u run a)
    | chunk output =>
      have hstart := sendStart_grows run
      rw [loop]
      rcases hsend : sendStart run with ⟨run', e | _⟩
      · rw [hsend] at hstart
        exact hstart.trans (afterLoop_grows run' _)
      · rw [hsend] at hstart
        have hbody : run'.sent <+: (sendBody run' output).sent := List.prefix_append ..
        dsimp only
        split
        · exact hstart.trans (hbody.trans (afterLoop_grows _ _))
        · exact hstart.trans (hbody.trans (ih _))

theorem next_grows (run : Run) (output : Bytes) (script : List Event × Ending) :
    (sendBody run output).sent <+: (afterLoop (next u run output script)).1.sent := by
  unfold next
  split
  · exact afterLoop_grows _ _
  · exact loop_grows _ _ _

/-! ### What is left to be done -/

/-- How the call ends, for the end of the method. -/
def endingOf : Result Unit → Ending
  | .ok () => .returned
  | .error e => .raised e

/-- The whole run of the application, by where the call is. -/
def Runs (u : Unicode) (past : List Action) (s : State) (script : List Event × Ending) (out : Run × Ending) : Prop :=
  match s.phase with
  | .application => out = afterLoop (loop u s.run script.2 script.1)
  | .start output => s.run.inst.responseStarted = true ∧ out = afterLoop (next u s.run output script)
  | .body output => ∃ run whole, run.inst.responseStarted = true ∧ output = clampOutput run whole ∧
      s.run = { run with sent := run.sent ++ [.body output] } ∧ out = afterLoop (next u run whole script)
  | .closingStart => out = ({ s.run with sent := s.run.sent ++ [.final] }, .returned)
  | .closing => out = (s.run, .returned)
  | .ended result => out = (s.run, endingOf result) ∨ (∃ e, .sendRaises e ∈ past) ∧ s.run.sent <+: out.1.sent
  | _ => False

/-- The application was called with the environ. -/
structure Answers (u : Unicode) (r : Request) (app : Environ → List Event × Ending) (past : List Action) (x : Scripted)
    (environ : Environ) : Prop where
  build : buildEnviron r.duplicateHeaderLimit r.scope r.scope r.body = .ok environ
  called : x.call.environ = some environ
  refusal : x.call.refusal = []
  runs : Runs u past x.call x.script (Wsgi.runWsgiApp u (app environ).1 (app environ).2)

/-- **The call so far, against the method in one go.** -/
inductive Agrees (u : Unicode) (r : Request) (app : Environ → List Event × Ending) (past : List Action) (x : Scripted) :
    Prop where
  | waiting (hphase : x.call.phase = .receiving ∨ x.call.phase = .handed) (hfresh : Fresh x.call)
  | unreceived (e : Exn) (hphase : x.call.phase = .ended (.error e)) (hfresh : Fresh x.call)
      (hnot : ¬ Whole x.call.received)
  | crashed (e : Exn) (hphase : x.call.phase = .ended (.error e)) (hfresh : Fresh x.call)
      (hbuild : buildEnviron r.duplicateHeaderLimit r.scope r.scope r.body = .error e) (he : e.isValueError = false)
  | refusing (e : Exn) (hbuild : buildEnviron r.duplicateHeaderLimit r.scope r.scope r.body = .error e)
      (he : e.isValueError = true) (henviron : x.call.environ = none) (hsent : x.call.run.sent = [])
      (hrefusal : x.call.refusal <+: badRequest)
      (hphase : x.call.phase = .refusingStart ∨ x.call.phase = .refusingBody ∧ x.call.refusal = badRequest ∨
        x.call.phase = .ended (.ok ()) ∧ x.call.refusal = badRequest ∨
        ∃ e, .sendRaises e ∈ past ∧ x.call.phase = .ended (.error e))
  | answering (environ : Environ) (h : Answers u r app past x environ)

/-! ### One step -/

theorem runs_close {past : List Action} {s : State} {script : List Event × Ending} {out : Run × Ending}
    (h : out = Wsgi.close s.run) : Runs u past s.close script out := by
  unfold State.close
  cases hstarted : s.run.inst.responseStarted with
  | true =>
    rw [close_started hstarted] at h
    exact h
  | false =>
    unfold Wsgi.close at h
    rcases hsend : sendStart s.run with ⟨run, e | _⟩
    · rw [hsend] at h
      exact .inl h
    · rw [hsend] at h
      exact h

theorem runs_sendOutput {past : List Action} {s : State} {output : Bytes} {script : List Event × Ending}
    {out : Run × Ending} (hstarted : s.run.inst.responseStarted = true)
    (h : out = afterLoop (next u s.run output script)) : Runs u past (s.sendOutput output) script out :=
  ⟨s.run, output, hstarted, rfl, rfl, h⟩

theorem runs_output {past : List Action} {s : State} {output : Bytes} {events : List Event} {ending : Ending}
    {out : Run × Ending} (h : out = afterLoop (loop u s.run ending (.chunk output :: events))) :
    Runs u past (s.output output) (events, ending) out := by
  unfold State.output
  cases hstarted : s.run.inst.responseStarted with
  | true =>
    rw [loop_started_chunk hstarted] at h
    exact runs_sendOutput hstarted h
  | false =>
    rcases hsend : sendStart s.run with ⟨run, e | _⟩
    · rw [loop, hsend] at h
      exact .inl h
    · rw [loop_first_chunk hsend] at h
      refine ⟨?_, h⟩
      have hrun : (sendStart s.run).1.inst.responseStarted = true := by
        unfold sendStart
        rw [hstarted]
        cases s.run.inst.responseStart <;> rfl
      rw [hsend] at hrun
      exact hrun

theorem runs_countOutput {past : List Action} {s : State} {run : Run} {whole : Bytes} {script : List Event × Ending}
    {out : Run × Ending} (hrun : s.run = { run with sent := run.sent ++ [.body (clampOutput run whole)] })
    (h : out = afterLoop (next u run whole script)) :
    Runs u past (s.countOutput (clampOutput run whole)) script out := by
  obtain ⟨phase, file, run', refusal, received, environ, readings⟩ := s
  cases hrun
  unfold next at h
  unfold State.countOutput
  dsimp only
  split
  · next heq =>
    have hall : some ((sendBody run whole).bytesSent : Int) = (sendBody run whole).inst.responseContentLength := heq
    rw [if_pos hall] at h
    exact runs_close h
  · next hne =>
    have hmore : ¬ some ((sendBody run whole).bytesSent : Int) = (sendBody run whole).inst.responseContentLength := hne
    rw [if_neg hmore] at h
    exact h

/-- **A `sync_send` returns.** -/
theorem runs_sendReturns {past : List Action} {s s' : State} {script : List Event × Ending} {out : Run × Ending}
    (h : Runs u past s script out) (hstep : s.sendReturns = some s') :
    Runs u (past ++ [.sendReturns]) s' script out := by
  unfold Runs at h
  unfold State.sendReturns at hstep
  cases hphase : s.phase with
  | refusingStart | refusingBody =>
    rw [hphase] at h
    exact h.elim
  | start output =>
    rw [hphase] at h hstep
    cases hstep
    exact runs_sendOutput h.1 h.2
  | body output =>
    rw [hphase] at h hstep
    cases hstep
    obtain ⟨run, whole, -, rfl, hrun, hout⟩ := h
    exact runs_countOutput hrun hout
  | closingStart =>
    rw [hphase] at h hstep
    cases hstep
    exact h
  | closing =>
    rw [hphase] at h hstep
    cases hstep
    exact .inl h
  | receiving | handed | application | ended =>
    rw [hphase] at hstep
    cases hstep

/-- What was sent so far is sent in any case. -/
theorem Runs.grows {past : List Action} {s : State} {script : List Event × Ending} {out : Run × Ending}
    (h : Runs u past s script out) : s.run.sent <+: out.1.sent := by
  unfold Runs at h
  cases hphase : s.phase with
  | receiving | handed | refusingStart | refusingBody =>
    rw [hphase] at h
    exact h.elim
  | application =>
    rw [hphase] at h
    rw [h]
    exact loop_grows _ _ _
  | start output =>
    rw [hphase] at h
    rw [h.2]
    exact (List.prefix_append ..).trans (next_grows s.run output script)
  | body output =>
    rw [hphase] at h
    obtain ⟨run, whole, -, rfl, hrun, hout⟩ := h
    rw [hout, hrun]
    exact next_grows run whole script
  | closingStart =>
    rw [hphase] at h
    rw [h]
    exact List.prefix_append ..
  | closing =>
    rw [hphase] at h
    exact ⟨[], by rw [List.append_nil, h]⟩
  | ended result =>
    rw [hphase] at h
    obtain h | ⟨-, h⟩ := h
    · exact ⟨[], by rw [List.append_nil, h]⟩
    · exact h

/-- An action of the application is the next one of the script. -/
theorem follow_app {script script' : List Event × Ending} {event : Event}
    (h : follow script (.app event) = some script') : script = (event :: script'.1, script'.2) := by
  obtain ⟨events, ending⟩ := script
  cases events with
  | nil => cases h
  | cons e events =>
    obtain ⟨rfl, heq⟩ := Option.ite_none_right_eq_some.1 h
    cases heq
    rfl

theorem scripted_cases {x x' : Scripted} {a : Action} (hstep : (scripted u r app).step x a = some x') :
    (machine u r).step x.call a = some x'.call ∧
      ((a = .runWsgiApp ∧ ∃ environ, x'.call.environ = some environ ∧ x'.script = app environ) ∨
        (a = .runWsgiApp → x'.call.environ = none) ∧ follow x.script a = some x'.script) := by
  change Scripted.step u r app x a = some x' at hstep
  unfold Scripted.step at hstep
  split at hstep
  · next s script hs hscript =>
    split at hstep
    · next environ henviron =>
      cases hstep
      exact ⟨hs, .inl ⟨rfl, environ, henviron, rfl⟩⟩
    · next hnot =>
      cases hstep
      refine ⟨hs, .inr ⟨fun ha => ?_, hscript⟩⟩
      cases henviron : s.environ with
      | none => rfl
      | some environ => exact (hnot environ ha henviron).elim
  · cases hstep

theorem Agrees.calls {past : List Action} {x : Scripted} (h : Agrees u r app past x)
    (hphase : x.call.phase = .application) : ∃ environ, Answers u r app past x environ := by
  cases h with
  | waiting hwaiting => rcases hwaiting with h | h <;> rw [hphase] at h <;> cases h
  | unreceived _ hended => rw [hphase] at hended; cases hended
  | crashed _ hended => rw [hphase] at hended; cases hended
  | refusing _ _ _ _ _ _ hrefusing =>
    obtain h | ⟨h, -⟩ | ⟨h, -⟩ | ⟨e, -, h⟩ := hrefusing <;> rw [hphase] at h <;> cases h
  | answering environ h => exact ⟨environ, h⟩

/-- **A message is received.** -/
theorem agrees_receive {past : List Action} {s : State} {script : List Event × Ending} (hreceives : Receives s)
    (hphase : s.phase = .receiving) (m : Incoming) : Agrees u r app past ⟨s.receive m, script⟩ := by
  have hfresh := hreceives.fresh
  obtain ⟨hm, e, h⟩ | ⟨hm, hmore, h⟩ | ⟨hm, hmore, h⟩ := receive_cases s m
  · rw [h]
    exact .unreceived e rfl ⟨hfresh.run, hfresh.refusal, hfresh.environ, hfresh.readings⟩ (not_whole_snoc hm)
  · rw [h]
    exact .waiting (.inl hphase) ⟨hfresh.run, hfresh.refusal, hfresh.environ, hfresh.readings⟩
  · rw [h]
    exact .waiting (.inr rfl) ⟨hfresh.run, hfresh.refusal, hfresh.environ, hfresh.readings⟩

/-- The application is called once. -/
structure SameCall (s s' : State) : Prop where
  environ : s'.environ = s.environ
  refusal : s'.refusal = s.refusal

theorem sameCall_output (s : State) (output : Bytes) : SameCall s (s.output output) := by
  unfold State.output
  split
  · exact ⟨rfl, rfl⟩
  · split <;> exact ⟨rfl, rfl⟩

theorem sameCall_close (s : State) : SameCall s s.close := by
  unfold State.close
  split
  · exact ⟨rfl, rfl⟩
  · split <;> exact ⟨rfl, rfl⟩

theorem sameCall_sendReturns {s s' : State} (hphase : s.phase ≠ .refusingStart) (hstep : s.sendReturns = some s') :
    SameCall s s' := by
  unfold State.sendReturns at hstep
  split at hstep
  · next hrefusing => exact absurd hrefusing hphase
  case h_4 output _ =>
    cases hstep
    unfold State.countOutput
    dsimp only
    split
    · have hclose := sameCall_close { s with run := { s.run with bytesSent := s.run.bytesSent + output.length } }
      exact ⟨hclose.environ, hclose.refusal⟩
    · exact ⟨rfl, rfl⟩
  all_goals
    cases hstep
    try exact ⟨rfl, rfl⟩

/-- A step that leaves the call with the application. -/
theorem Answers.step {past past' : List Action} {s s' : State} {script script' : List Event × Ending} {environ : Environ}
    (h : Answers u r app past ⟨s, script⟩ environ) (hsame : SameCall s s')
    (hruns : Runs u past' s' script' (Wsgi.runWsgiApp u (app environ).1 (app environ).2)) :
    Agrees u r app past' ⟨s', script'⟩ :=
  .answering environ ⟨h.build, hsame.environ.trans h.called, hsame.refusal.trans h.refusal, hruns⟩

/-- The loop from where the application is. -/
theorem Answers.loop {past : List Action} {s : State} {script : List Event × Ending} {environ : Environ}
    (h : Answers u r app past ⟨s, script⟩ environ) (hphase : s.phase = .application) :
    Wsgi.runWsgiApp u (app environ).1 (app environ).2 = afterLoop (Wsgi.loop u s.run script.2 script.1) := by
  have hruns := h.runs
  unfold Runs at hruns
  rw [show (Scripted.mk s script).call.phase = _ from hphase] at hruns
  exact hruns

theorem runs_application {past : List Action} {s : State} {script : List Event × Ending} {out : Run × Ending}
    (hphase : s.phase = .application) (h : out = afterLoop (loop u s.run script.2 script.1)) :
    Runs u past s script out := by
  unfold Runs
  rw [hphase]
  exact h

/-- What the application does next. -/
theorem agrees_app {past : List Action} {s s' : State} {script script' : List Event × Ending} {event : Event}
    (h : Agrees u r app past ⟨s, script⟩) (hfollow : follow script (.app event) = some script')
    (hcall : (machine u r).step s (.app event) = some s') : Agrees u r app (past ++ [.app event]) ⟨s', script'⟩ := by
  have hscript := follow_app hfollow
  cases event with
  | call args =>
    obtain ⟨hphase, heq⟩ := Option.ite_none_right_eq_some.1 hcall
    cases heq
    obtain ⟨environ, h⟩ := h.calls hphase
    have hloop := h.loop hphase
    rw [hscript] at hloop
    exact h.step ⟨rfl, rfl⟩ (runs_application hphase hloop)
  | chunk output =>
    obtain ⟨hphase, heq⟩ := Option.ite_none_right_eq_some.1 hcall
    cases heq
    obtain ⟨environ, h⟩ := h.calls hphase
    have hloop := h.loop hphase
    rw [hscript] at hloop
    exact h.step (sameCall_output s output) (runs_output hloop)

/-- The thread builds the environ, and the application is called. -/
theorem agrees_build {past : List Action} {s : State} {script : List Event × Ending} (hfresh : Fresh s)
    (hscript : (∃ environ, (s.build r).environ = some environ ∧ script = app environ) ∨ (s.build r).environ = none) :
    Agrees u r app past ⟨s.build r, script⟩ := by
  cases hbuild : buildEnviron r.duplicateHeaderLimit r.scope r.scope r.body with
  | error e =>
    cases he : e.isValueError with
    | true =>
      have hs : s.build r = { s with phase := .refusingStart, refusal := badRequest.take 1 } := by
        simp [State.build, hbuild, he]
      rw [hs]
      refine .refusing e hbuild he hfresh.environ ?_ (List.take_prefix ..) (.inl rfl)
      rw [hfresh.run]
      rfl
    | false =>
      have hs : s.build r = { s with phase := .ended (.error e) } := by
        simp [State.build, hbuild, he]
      rw [hs]
      exact .crashed e rfl ⟨hfresh.run, hfresh.refusal, hfresh.environ, hfresh.readings⟩ hbuild he
  | ok environ =>
    have hs : s.build r = { s with phase := .application, environ := some environ } := by
      simp [State.build, hbuild]
    rw [hs] at hscript ⊢
    obtain ⟨environ', henviron, rfl⟩ | hnone := hscript
    · cases henviron
      refine .answering environ ⟨hbuild, rfl, hfresh.refusal, ?_⟩
      show Wsgi.runWsgiApp u _ _ = afterLoop (loop u s.run _ _)
      rw [hfresh.run]
      rfl
    · cases hnone

/-- A `sync_send` of the refusal returns. -/
theorem agrees_refusing {past : List Action} {s s' : State} {script : List Event × Ending} {e : Exn}
    (hbuild : buildEnviron r.duplicateHeaderLimit r.scope r.scope r.body = .error e) (he : e.isValueError = true)
    (henviron : s.environ = none) (hsent : s.run.sent = [])
    (hphase : s.phase = .refusingStart ∨ s.phase = .refusingBody ∧ s.refusal = badRequest ∨
      s.phase = .ended (.ok ()) ∧ s.refusal = badRequest ∨ ∃ e, .sendRaises e ∈ past ∧ s.phase = .ended (.error e))
    (hstep : s.sendReturns = some s') : Agrees u r app (past ++ [.sendReturns]) ⟨s', script⟩ := by
  unfold State.sendReturns at hstep
  obtain h | ⟨h, hrefusal⟩ | ⟨h, -⟩ | ⟨e, -, h⟩ := hphase
  · rw [h] at hstep
    cases hstep
    exact .refusing e hbuild he henviron hsent List.prefix_rfl (.inr (.inl ⟨rfl, rfl⟩))
  · rw [h] at hstep
    cases hstep
    exact .refusing e hbuild he henviron hsent (hrefusal ▸ List.prefix_rfl) (.inr (.inr (.inl ⟨rfl, hrefusal⟩)))
  · rw [h] at hstep
    cases hstep
  · rw [h] at hstep
    cases hstep

/-- A `sync_send` raises. -/
theorem agrees_sendRaises {past : List Action} {s : State} {script : List Event × Ending}
    (h : Agrees u r app past ⟨s, script⟩) (hsending : s.sending = true) (e : Exn) :
    Agrees u r app (past ++ [.sendRaises e]) ⟨{ s with phase := .ended (.error e) }, script⟩ := by
  have hlast : Action.sendRaises e ∈ past ++ [.sendRaises e] := by simp
  cases h with
  | waiting hwaiting =>
    unfold State.sending at hsending
    rcases hwaiting with h | h <;> rw [show s.phase = _ from h] at hsending <;> cases hsending
  | unreceived _ h => rw [State.sending, show s.phase = _ from h] at hsending; cases hsending
  | crashed _ h => rw [State.sending, show s.phase = _ from h] at hsending; cases hsending
  | refusing _ hbuild he henviron hsent hrefusal =>
    exact .refusing _ hbuild he henviron hsent hrefusal (.inr (.inr (.inr ⟨e, hlast, rfl⟩)))
  | answering environ h =>
    exact h.step ⟨rfl, rfl⟩ (.inr ⟨⟨e, hlast⟩, h.runs.grows⟩)

/-- **A step of the call, and of the method.** -/
theorem agrees_step {past : List Action} {x x' : Scripted} {a : Action} (hstage : Stage x.call)
    (h : Agrees u r app past x) (hstep : (scripted u r app).step x a = some x') : Agrees u r app (past ++ [a]) x' := by
  obtain ⟨s, script⟩ := x
  obtain ⟨s', script'⟩ := x'
  obtain ⟨hcall, hscript⟩ := scripted_cases hstep
  dsimp only at hstage hcall hscript
  cases a with
  | receive m =>
    obtain ⟨hphase, heq⟩ := Option.ite_none_right_eq_some.1 hcall
    cases heq
    exact agrees_receive (hstage.receives hphase) hphase m
  | receiveRaises e =>
    obtain ⟨hphase, heq⟩ := Option.ite_none_right_eq_some.1 hcall
    cases heq
    have hreceives := hstage.receives hphase
    have hfresh := hreceives.fresh
    exact .unreceived e rfl ⟨hfresh.run, hfresh.refusal, hfresh.environ, hfresh.readings⟩ hreceives.goesOn.not_whole
  | runWsgiApp =>
    obtain ⟨hphase, heq⟩ := Option.ite_none_right_eq_some.1 hcall
    cases heq
    refine agrees_build (hstage.hands hphase).1 ?_
    obtain ⟨-, environ, hscript⟩ | ⟨hnone, -⟩ := hscript
    · exact .inl ⟨environ, hscript⟩
    · exact .inr (hnone rfl)
  | app event =>
    obtain ⟨ha, -⟩ | ⟨-, hfollow⟩ := hscript
    · cases ha
    · exact agrees_app h hfollow hcall
  | read how =>
    obtain ⟨hphase, heq⟩ := Option.ite_none_right_eq_some.1 hcall
    cases heq
    obtain ⟨environ, h⟩ := h.calls hphase
    obtain ⟨ha, -⟩ | ⟨-, hfollow⟩ := hscript
    · cases ha
    · cases hfollow
      exact h.step ⟨rfl, rfl⟩ (runs_application hphase (h.loop hphase))
  | returned =>
    obtain ⟨hphase, heq⟩ := Option.ite_none_right_eq_some.1 hcall
    cases heq
    obtain ⟨environ, h⟩ := h.calls hphase
    have hloop := h.loop hphase
    obtain ⟨ha, -⟩ | ⟨-, hfollow⟩ := hscript
    · cases ha
    · obtain ⟨hdone, -⟩ := Option.ite_none_right_eq_some.1 hfollow
      rw [hdone] at hloop
      exact h.step (sameCall_close s) (runs_close hloop)
  | raised e =>
    obtain ⟨hphase, heq⟩ := Option.ite_none_right_eq_some.1 hcall
    cases heq
    obtain ⟨environ, h⟩ := h.calls hphase
    have hloop := h.loop hphase
    obtain ⟨ha, -⟩ | ⟨-, hfollow⟩ := hscript
    · cases ha
    · obtain ⟨hdone, -⟩ := Option.ite_none_right_eq_some.1 hfollow
      rw [hdone] at hloop
      exact h.step ⟨rfl, rfl⟩ (.inl hloop)
  | sendReturns =>
    obtain ⟨ha, -⟩ | ⟨-, hfollow⟩ := hscript
    · cases ha
    · cases hfollow
      have hsending := sending_of_sendReturns hcall
      unfold State.sending at hsending
      cases h with
      | waiting hwaiting =>
        rcases hwaiting with h | h <;> rw [show s.phase = _ from h] at hsending <;> cases hsending
      | unreceived _ h => rw [show s.phase = _ from h] at hsending; cases hsending
      | crashed _ h => rw [show s.phase = _ from h] at hsending; cases hsending
      | refusing e hbuild he henviron hsent _ hphase => exact agrees_refusing hbuild he henviron hsent hphase hcall
      | answering environ h =>
        have hnot : s.phase ≠ .refusingStart := by
          intro hphase
          have hruns := h.runs
          unfold Runs at hruns
          rw [show (Scripted.mk s script).call.phase = _ from hphase] at hruns
          exact hruns
        exact h.step (sameCall_sendReturns hnot hcall) (runs_sendReturns h.runs hcall)
  | sendRaises e =>
    obtain ⟨hsending, heq⟩ := Option.ite_none_right_eq_some.1 hcall
    cases heq
    obtain ⟨ha, -⟩ | ⟨-, hfollow⟩ := hscript
    · cases ha
    · cases hfollow
      exact agrees_sendRaises h hsending e

theorem agrees_run {type : Option String} {x : Scripted} {as : List Action}
    (hrun : (scripted u r app).run (Scripted.init type) as = some x) : Agrees u r app as x ∧ Stage x.call := by
  have hinit : Agrees u r app [] (Scripted.init type) := by
    have hfresh : Fresh (State.init type) := ⟨rfl, rfl, rfl, rfl⟩
    have hnot : ¬ Whole (State.init type).received := by
      refine Partial.not_whole fun m hm => ?_
      cases hm
    cases type with
    | none => exact .unreceived _ rfl hfresh hnot
    | some type =>
      by_cases htype : type = "http"
      · refine .waiting (.inl ?_) hfresh
        simp [Scripted.init, State.init, htype]
      · refine .unreceived (.valueError "WSGI wrapper received a non-HTTP scope") ?_ hfresh hnot
        simp [Scripted.init, State.init, htype]
  exact (scripted u r app).run_history (I := fun past x => Agrees u r app past x ∧ Stage x.call)
    (fun past x a x' h hs => ⟨agrees_step h.2 h.1 hs, stage_step h.2 (scripted_cases hs).1⟩)
    ⟨hinit, stage_init type⟩ hrun

/-- **Call by call it does what it does in one go.**  In every run of the adapter with an application, what has been
sent is the beginning of what the method sends of this application; and if no `sync_send` raises, a call that has ended
after a whole request has sent all of it, has called the application with the same environ, and has ended the same
way. -/
theorem agrees {type : Option String} {x : Scripted} {as : List Action}
    (hrun : (scripted u r app).run (Scripted.init type) as = some x) :
    x.call.sent <+: (r.runWsgiApp u app).sent ∧
      ∀ result, x.call.phase = .ended result → Whole x.call.received → (∀ e, .sendRaises e ∉ as) →
        r.runWsgiApp u app = ⟨x.call.sent, x.call.environ, endingOf result⟩ := by
  obtain ⟨h, hstage⟩ := agrees_run hrun
  have hnothing (hfresh : Fresh x.call) : x.call.sent <+: (r.runWsgiApp u app).sent := by
    rw [hfresh.sent]
    exact List.nil_prefix
  cases h with
  | waiting hwaiting hfresh =>
    refine ⟨hnothing hfresh, fun result hended => ?_⟩
    rcases hwaiting with h | h <;> rw [hended] at h <;> cases h
  | unreceived _ _ hfresh hnot => exact ⟨hnothing hfresh, fun _ _ hwhole => absurd hwhole hnot⟩
  | crashed e hphase hfresh hbuild he =>
    refine ⟨hnothing hfresh, fun result hended _ _ => ?_⟩
    rw [hphase] at hended
    cases hended
    rw [hfresh.sent, hfresh.environ]
    simp [Request.runWsgiApp, hbuild, he, endingOf]
  | refusing e hbuild he henviron hsent hrefusal hphase =>
    have hmethod : r.runWsgiApp u app = ⟨badRequest, none, .returned⟩ := by
      simp [Request.runWsgiApp, hbuild, he]
    have hall : x.call.sent = x.call.refusal := by simp [State.sent, hsent]
    rw [hmethod, hall]
    refine ⟨hrefusal, fun result hended _ hno => ?_⟩
    obtain h | ⟨h, -⟩ | ⟨h, hbad⟩ | ⟨e, he, -⟩ := hphase
    · rw [hended] at h
      cases h
    · rw [hended] at h
      cases h
    · rw [hended] at h
      cases h
      rw [hbad, henviron]
      rfl
    · exact absurd he (hno e)
  | answering environ h =>
    have hmethod : r.runWsgiApp u app = ⟨(Wsgi.runWsgiApp u (app environ).1 (app environ).2).1.sent.map .message,
        some environ, (Wsgi.runWsgiApp u (app environ).1 (app environ).2).2⟩ := by
      simp [Request.runWsgiApp, h.build]
    have hall : x.call.sent = x.call.run.sent.map .message := by simp [State.sent, h.refusal]
    rw [hmethod, hall]
    refine ⟨h.runs.grows.map _, fun result hended _ hno => ?_⟩
    have hruns := h.runs
    unfold Runs at hruns
    rw [hended] at hruns
    obtain hout | ⟨⟨e, he⟩, -⟩ := hruns
    · rw [hout, h.called]
    · exact absurd he (hno e)

/-- The application of `posted`. -/
def answer : Environ → List Event × Ending := fun _ => ([.call ⟨str "200 OK", [], none⟩, .chunk [7]], .returned)

theorem agrees_posted : ∃ x, (scripted .asciiOnly postRequest answer).run (Scripted.init (some "http")) posted = some x ∧
    x.call.sent.length = 3 ∧
      postRequest.runWsgiApp .asciiOnly answer = ⟨x.call.sent, x.call.environ, .returned⟩ := by
  refine ⟨_, rfl, rfl, ?_⟩
  have hno : ∀ e, Action.sendRaises e ∉ posted := by simp [posted]
  have hwhole : Whole [⟨some "http.request", some (some [1, 2, 10]), true⟩,
      ⟨some "http.request", some (some [3]), false⟩] :=
    ⟨[_], _, rfl, by simp [Partial, Incoming.IsRequest], by simp [Incoming.IsRequest], rfl⟩
  exact (@agrees .asciiOnly postRequest answer (some "http") _ posted rfl).2 (.ok ()) rfl hwhole hno

end Asgiref.Wsgi.Conversation
