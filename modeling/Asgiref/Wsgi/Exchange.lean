import Asgiref.Wsgi.Conversation

/-!
# The messages of a call of the adapter

* `Partial`, `Whole` — the messages of a request, and what they carry (`bodyOf`);
* `Response` — what is sent for a request;
* `Stage`, `Responds` — the invariant, `stage_run`;
* `exchange` — the request is received as a whole, and then the response is sent;
* `body_read` — the application reads what was received.
-/

namespace Asgiref.Wsgi.Conversation

open Asgiref.Lib Asgiref.Python State

/-! ### Requests and responses -/

/-- A message of a request. -/
def Incoming.IsRequest (m : Incoming) : Prop := m.type = some "http.request" ∧ m.body ≠ some none

/-- What the message carries. -/
def Incoming.data (m : Incoming) : Bytes := (m.body.getD none).getD []

/-- A request that goes on. -/
def Partial (ms : List Incoming) : Prop := ∀ m ∈ ms, m.IsRequest ∧ m.moreBody = true

/-- A whole request. -/
def Whole (ms : List Incoming) : Prop :=
  ∃ first last, ms = first ++ [last] ∧ Partial first ∧ last.IsRequest ∧ last.moreBody = false

def bodyOf (ms : List Incoming) : Bytes := (ms.map Incoming.data).flatten

theorem bodyOf_snoc (ms : List Incoming) (m : Incoming) : bodyOf (ms ++ [m]) = bodyOf ms ++ m.data := by
  simp [bodyOf]

/-- The answer to a request: of the application where it was called, and the refusal where it was not. -/
def Response (environ : Option Environ) (sent : List Sent) : Prop :=
  environ = none ∧ sent = badRequest ∨
    environ ≠ none ∧ ∃ start bodies, sent = (complete start bodies).map .message

/-! ### The invariant -/

/-- Nothing was done for the application. -/
structure Fresh (s : State) : Prop where
  run : s.run = .init
  refusal : s.refusal = []
  environ : s.environ = none
  readings : s.readings = []

/-- A response that goes on, and whether it has begun. -/
def Opened (run : Run) : Prop :=
  run.inst.responseStarted = false ∧ run.sent = [] ∨
    run.inst.responseStarted = true ∧ ∃ start, ∃ bodies : List Bytes, run.sent = .start start :: bodies.map .body

/-- What was sent, by where the call is. -/
def Responds (s : State) : Prop :=
  match s.phase with
  | .receiving | .handed => False
  | .refusingStart => s.environ = none ∧ s.run.sent = [] ∧ s.refusal = badRequest.take 1
  | .refusingBody => s.environ = none ∧ s.run.sent = [] ∧ s.refusal = badRequest
  | .application => s.environ ≠ none ∧ s.refusal = [] ∧ Opened s.run
  | .start _ | .body _ | .closingStart =>
    s.environ ≠ none ∧ s.refusal = [] ∧ s.run.inst.responseStarted = true ∧ Opened s.run
  | .closing => s.environ ≠ none ∧ s.refusal = [] ∧ ∃ start bodies, s.run.sent = complete start bodies
  | .ended result =>
    ∃ response, Response s.environ response ∧ s.sent <+: response ∧ (result = .ok () → s.sent = response)

/-- The body, as it lies in the file and as far as the application has read it. -/
structure Holds (s : State) : Prop where
  whole : Whole s.received
  content : s.file.content = bodyOf s.received
  readings : s.readings.flatten = s.file.content.take s.file.position

/-- The call is still in its loop. -/
structure Receives (s : State) : Prop where
  fresh : Fresh s
  goesOn : Partial s.received
  content : s.file.content = bodyOf s.received
  atEnd : s.file.position = s.file.content.length

/-- How far the call is. -/
inductive Stage (s : State) : Prop where
  | receiving (hphase : s.phase = .receiving) (hreceives : Receives s)
  | failed (e : Exn) (hphase : s.phase = .ended (.error e)) (hfresh : Fresh s)
  | handed (hphase : s.phase = .handed) (hfresh : Fresh s) (hholds : Holds s)
  | answering (hresponds : Responds s) (hholds : Holds s)

theorem Fresh.sent {s : State} (h : Fresh s) : s.sent = [] := by
  rw [State.sent, h.refusal, h.run]
  rfl

theorem stage_init (type : Option String) : Stage (State.init type) := by
  have hfresh : Fresh (State.init type) := ⟨rfl, rfl, rfl, rfl⟩
  cases type with
  | none => exact .failed _ rfl hfresh
  | some type =>
    by_cases htype : type = "http"
    · refine .receiving ?_ ⟨hfresh, ?_, rfl, rfl⟩
      · simp [State.init, htype]
      · intro m hm
        cases hm
    · refine .failed (.valueError "WSGI wrapper received a non-HTTP scope") ?_ hfresh
      simp [State.init, htype]

/-! ### Receiving -/

/-- A message ends the call, or it is written and the request goes on, or it is the last one. -/
theorem receive_cases (s : State) (m : Incoming) :
    (¬ m.IsRequest ∧ ∃ e, s.receive m = { s with received := s.received ++ [m], phase := .ended (.error e) }) ∨
    m.IsRequest ∧ m.moreBody = true ∧
      s.receive m = { s with received := s.received ++ [m], file := s.file.write m.data } ∨
    m.IsRequest ∧ m.moreBody = false ∧ s.receive m =
      { s with received := s.received ++ [m], file := (s.file.write m.data).rewind, phase := .handed } := by
  obtain ⟨type, body, more⟩ := m
  cases type with
  | none => exact .inl ⟨by simp [Incoming.IsRequest], _, rfl⟩
  | some type =>
    by_cases htype : type = "http.request"
    · subst htype
      cases body with
      | none =>
        cases more with
        | true => exact .inr (.inl ⟨⟨rfl, by simp⟩, rfl, rfl⟩)
        | false => exact .inr (.inr ⟨⟨rfl, by simp⟩, rfl, rfl⟩)
      | some body =>
        cases body with
        | none => exact .inl ⟨by simp [Incoming.IsRequest], _, rfl⟩
        | some data =>
          cases more with
          | true => exact .inr (.inl ⟨⟨rfl, by simp⟩, rfl, rfl⟩)
          | false => exact .inr (.inr ⟨⟨rfl, by simp⟩, rfl, rfl⟩)
    · have hnot : ¬ Incoming.IsRequest ⟨some type, body, more⟩ := by simp [Incoming.IsRequest, htype]
      refine .inl ⟨hnot, .valueError "WSGI wrapper received a non-HTTP-request message", ?_⟩
      simp only [State.receive, ne_eq, htype, not_false_eq_true, if_true]

theorem Partial.snoc {ms : List Incoming} {m : Incoming} (h : Partial ms) (hm : m.IsRequest)
    (hmore : m.moreBody = true) : Partial (ms ++ [m]) := by
  intro x hx
  rcases List.mem_append.1 hx with hx | hx
  · exact h x hx
  · rw [List.mem_singleton.1 hx]
    exact ⟨hm, hmore⟩

theorem Partial.not_whole {ms : List Incoming} (h : Partial ms) : ¬ Whole ms := by
  rintro ⟨first, last, rfl, -, -, hmore⟩
  have hlast := (h last (by simp)).2
  rw [hmore] at hlast
  cases hlast

theorem not_whole_snoc {ms : List Incoming} {m : Incoming} (hm : ¬ m.IsRequest) : ¬ Whole (ms ++ [m]) := by
  rintro ⟨first, last, heq, -, hlast, -⟩
  have hend : [m] = [last] := (List.append_inj' heq rfl).2
  rw [← List.singleton_inj.1 hend] at hlast
  exact hm hlast

/-- **A message is received.** -/
theorem stage_receive {s : State} (hreceives : Receives s) (hphase : s.phase = .receiving) (m : Incoming) :
    Stage (s.receive m) := by
  obtain ⟨hfresh, hpartial, hcontent, hend⟩ := hreceives
  obtain ⟨hwritten, hatEnd⟩ := File.write_atEnd hend m.data
  have hbody : (s.file.write m.data).content = bodyOf (s.received ++ [m]) := by
    rw [hwritten, hcontent, bodyOf_snoc]
  obtain ⟨-, e, h⟩ | ⟨hm, hmore, h⟩ | ⟨hm, hmore, h⟩ := receive_cases s m
  · rw [h]
    exact .failed e rfl ⟨hfresh.run, hfresh.refusal, hfresh.environ, hfresh.readings⟩
  · rw [h]
    exact .receiving hphase ⟨⟨hfresh.run, hfresh.refusal, hfresh.environ, hfresh.readings⟩,
      hpartial.snoc hm hmore, hbody, hatEnd⟩
  · rw [h]
    refine .handed rfl ⟨hfresh.run, hfresh.refusal, hfresh.environ, hfresh.readings⟩ ⟨?_, hbody, ?_⟩
    · exact ⟨s.received, m, rfl, hpartial, hm, hmore⟩
    · show s.readings.flatten = (s.file.write m.data).rewind.content.take 0
      rw [hfresh.readings]
      rfl

/-! ### Answering -/

/-- What the answer leaves alone. -/
structure Keeps (s s' : State) : Prop where
  file : s'.file = s.file
  received : s'.received = s.received
  readings : s'.readings = s.readings

theorem Holds.keep {s s' : State} (h : Holds s) (hk : Keeps s s') : Holds s' where
  whole := hk.received ▸ h.whole
  content := by
    rw [hk.file, hk.received]
    exact h.content
  readings := by
    rw [hk.file, hk.readings]
    exact h.readings

/-- The application reads on. -/
theorem Holds.read {s : State} (h : Holds s) (how : Reading) : Holds (s.read how) := by
  have hadvance (n : Nat) : Holds { s with
      file := (s.file.advance n).2, readings := s.readings ++ [(s.file.advance n).1] } := by
    refine ⟨h.whole, h.content, ?_⟩
    rw [List.flatten_append, List.flatten_singleton, h.readings]
    exact File.advance_spec s.file n
  cases how with
  | read size => exact hadvance _
  | readline size => exact hadvance _

theorem opened_callStartResponse {u : Unicode} {run : Run} (h : Opened run) (a : StartArgs) :
    Opened (callStartResponse u run a) := by
  unfold Opened
  rw [show (callStartResponse u run a).inst.responseStarted = run.inst.responseStarted from
    responseStarted_startResponse run.inst a]
  exact h

/-- The start message is sent, or there is none. -/
theorem sendStart_cases {run : Run} (h : Opened run) (hnot : run.inst.responseStarted = false) :
    (∃ run', sendStart run = (run', .error .attributeError) ∧ run'.sent = []) ∨
      ∃ run', sendStart run = (run', .ok ()) ∧ run'.inst.responseStarted = true ∧ Opened run' := by
  have hsent : run.sent = [] := by
    obtain ⟨-, hsent⟩ | ⟨hstarted, -⟩ := h
    · exact hsent
    · rw [hnot] at hstarted
      cases hstarted
  unfold sendStart
  rw [if_neg (by rw [hnot]; exact Bool.false_ne_true)]
  cases hstart : run.inst.responseStart with
  | none => exact .inl ⟨_, rfl, hsent⟩
  | some start => exact .inr ⟨_, rfl, rfl, .inr ⟨rfl, start, [], by rw [hsent]; rfl⟩⟩

/-- The application was called, and nothing was refused. -/
structure Called (s : State) : Prop where
  environ : s.environ ≠ none
  refusal : s.refusal = []

theorem Called.sent {s : State} (h : Called s) : s.sent = s.run.sent.map .message := by
  rw [State.sent, h.refusal]
  rfl

/-- The call ends with an exception. -/
theorem responds_failed {s : State} {e : Exn} (hphase : s.phase = .ended (.error e))
    (h : ∃ response, Response s.environ response ∧ s.sent <+: response) : Responds s := by
  obtain ⟨response, hresponse, hbegins⟩ := h
  unfold Responds
  rw [hphase]
  refine ⟨response, hresponse, hbegins, fun hok => ?_⟩
  cases hok

theorem Called.answers {s : State} (h : Called s) (start : Start) (bodies : List Bytes)
    (hbegins : s.run.sent <+: complete start bodies) :
    ∃ response, Response s.environ response ∧ s.sent <+: response := by
  refine ⟨(complete start bodies).map .message, .inr ⟨h.environ, start, bodies, rfl⟩, ?_⟩
  rw [h.sent]
  exact hbegins.map _

theorem Called.answers_nothing {s : State} (h : Called s) (hsent : s.run.sent = []) :
    ∃ response, Response s.environ response ∧ s.sent <+: response := by
  refine h.answers ⟨0, []⟩ [] ?_
  rw [hsent]
  exact List.nil_prefix

theorem Called.answers_opened {s : State} (h : Called s) (hopened : Opened s.run) :
    ∃ response, Response s.environ response ∧ s.sent <+: response := by
  obtain ⟨-, hsent⟩ | ⟨-, start, bodies, hsent⟩ := hopened
  · exact h.answers_nothing hsent
  · refine h.answers start bodies ?_
    rw [hsent]
    exact List.prefix_append ..

theorem responds_sendOutput {s : State} (h : Called s) (hstarted : s.run.inst.responseStarted = true)
    (hopened : Opened s.run) (output : Bytes) : Responds (s.sendOutput output) := by
  refine ⟨h.environ, h.refusal, hstarted, .inr ⟨hstarted, ?_⟩⟩
  obtain ⟨hnot, -⟩ | ⟨-, start, bodies, hsent⟩ := hopened
  · rw [hstarted] at hnot
    cases hnot
  · refine ⟨start, bodies ++ [clampOutput s.run output], ?_⟩
    show s.run.sent ++ [_] = _
    rw [hsent, List.map_append]
    rfl

theorem responds_output {s : State} (h : Called s) (hopened : Opened s.run) (output : Bytes) :
    Responds (s.output output) := by
  unfold State.output
  cases hstarted : s.run.inst.responseStarted with
  | true => exact responds_sendOutput h hstarted hopened output
  | false =>
    obtain ⟨run, hsend, hsent⟩ | ⟨run, hsend, hstart, hopen⟩ := sendStart_cases hopened hstarted
    · rw [hsend]
      exact responds_failed rfl (Called.answers_nothing ⟨h.environ, h.refusal⟩ hsent)
    · rw [hsend]
      exact ⟨h.environ, h.refusal, hstart, hopen⟩

theorem responds_sendFinal {s : State} (h : Called s) (hstarted : s.run.inst.responseStarted = true)
    (hopened : Opened s.run) : Responds s.sendFinal := by
  refine ⟨h.environ, h.refusal, ?_⟩
  obtain ⟨hnot, -⟩ | ⟨-, start, bodies, hsent⟩ := hopened
  · rw [hstarted] at hnot
    cases hnot
  · refine ⟨start, bodies, ?_⟩
    show s.run.sent ++ [_] = _
    rw [hsent]
    rfl

theorem responds_close {s : State} (h : Called s) (hopened : Opened s.run) : Responds s.close := by
  unfold State.close
  cases hstarted : s.run.inst.responseStarted with
  | true => exact responds_sendFinal h hstarted hopened
  | false =>
    obtain ⟨run, hsend, hsent⟩ | ⟨run, hsend, hstart, hopen⟩ := sendStart_cases hopened hstarted
    · rw [hsend]
      exact responds_failed rfl (Called.answers_nothing ⟨h.environ, h.refusal⟩ hsent)
    · rw [hsend]
      exact ⟨h.environ, h.refusal, hstart, hopen⟩

theorem responds_countOutput {s : State} (h : Called s) (hopened : Opened s.run) (output : Bytes) :
    Responds (s.countOutput output) := by
  unfold State.countOutput
  dsimp only
  split
  · exact responds_close ⟨h.environ, h.refusal⟩ hopened
  · exact ⟨h.environ, h.refusal, hopened⟩

/-- **A `sync_send` returns.** -/
theorem responds_sendReturns {s s' : State} (h : Responds s) (hstep : s.sendReturns = some s') : Responds s' := by
  unfold Responds at h
  unfold State.sendReturns at hstep
  cases hphase : s.phase with
  | refusingStart =>
    rw [hphase] at h hstep
    cases hstep
    exact ⟨h.1, h.2.1, rfl⟩
  | refusingBody =>
    rw [hphase] at h hstep
    cases hstep
    obtain ⟨henviron, hsent, hrefusal⟩ := h
    have hall : s.sent = badRequest := by
      rw [State.sent, hsent, hrefusal]
      rfl
    exact ⟨badRequest, .inl ⟨henviron, rfl⟩, hall ▸ List.prefix_rfl, fun _ => hall⟩
  | start output =>
    rw [hphase] at h hstep
    cases hstep
    exact responds_sendOutput ⟨h.1, h.2.1⟩ h.2.2.1 h.2.2.2 output
  | body output =>
    rw [hphase] at h hstep
    cases hstep
    exact responds_countOutput ⟨h.1, h.2.1⟩ h.2.2.2 output
  | closingStart =>
    rw [hphase] at h hstep
    cases hstep
    exact responds_sendFinal ⟨h.1, h.2.1⟩ h.2.2.1 h.2.2.2
  | closing =>
    rw [hphase] at h hstep
    cases hstep
    obtain ⟨henviron, hrefusal, start, bodies, hsent⟩ := h
    have hall : s.sent = (complete start bodies).map .message := by
      rw [Called.sent ⟨henviron, hrefusal⟩, hsent]
    exact ⟨_, .inr ⟨henviron, start, bodies, rfl⟩, hall ▸ List.prefix_rfl, fun _ => hall⟩
  | receiving | handed | application | ended =>
    rw [hphase] at hstep
    cases hstep

/-- What was sent so far is the beginning of a response. -/
theorem Responds.answers {s : State} (h : Responds s) :
    ∃ response, Response s.environ response ∧ s.sent <+: response := by
  unfold Responds at h
  cases hphase : s.phase with
  | receiving | handed =>
    rw [hphase] at h
    exact h.elim
  | refusingStart =>
    rw [hphase] at h
    refine ⟨badRequest, .inl ⟨h.1, rfl⟩, ?_⟩
    rw [State.sent, h.2.1, h.2.2, List.map_nil, List.append_nil]
    exact List.take_prefix ..
  | refusingBody =>
    rw [hphase] at h
    refine ⟨badRequest, .inl ⟨h.1, rfl⟩, ?_⟩
    rw [State.sent, h.2.1, h.2.2]
    exact List.prefix_rfl
  | application =>
    rw [hphase] at h
    exact Called.answers_opened ⟨h.1, h.2.1⟩ h.2.2
  | start | body | closingStart =>
    rw [hphase] at h
    exact Called.answers_opened ⟨h.1, h.2.1⟩ h.2.2.2
  | closing =>
    rw [hphase] at h
    obtain ⟨henviron, hrefusal, start, bodies, hsent⟩ := h
    have hcalled : Called s := ⟨henviron, hrefusal⟩
    exact hcalled.answers start bodies ⟨[], by rw [List.append_nil, hsent]⟩
  | ended =>
    rw [hphase] at h
    obtain ⟨response, hresponse, hbegins, -⟩ := h
    exact ⟨response, hresponse, hbegins⟩

/-- The thread builds the environ. -/
theorem stage_build (r : Request) {s : State} (hfresh : Fresh s) (hholds : Holds s) : Stage (s.build r) := by
  unfold State.build
  split
  · split
    · refine .answering ⟨hfresh.environ, ?_, rfl⟩ (hholds.keep ⟨rfl, rfl, rfl⟩)
      rw [hfresh.run]
      rfl
    · exact .failed _ rfl ⟨hfresh.run, hfresh.refusal, hfresh.environ, hfresh.readings⟩
  · refine .answering ⟨Option.some_ne_none _, hfresh.refusal, .inl ?_⟩ (hholds.keep ⟨rfl, rfl, rfl⟩)
    rw [hfresh.run]
    exact ⟨rfl, rfl⟩

theorem keeps_output (s : State) (output : Bytes) : Keeps s (s.output output) := by
  unfold State.output
  split
  · exact ⟨rfl, rfl, rfl⟩
  · split <;> exact ⟨rfl, rfl, rfl⟩

theorem keeps_close (s : State) : Keeps s s.close := by
  unfold State.close
  split
  · exact ⟨rfl, rfl, rfl⟩
  · split <;> exact ⟨rfl, rfl, rfl⟩

theorem keeps_sendReturns {s s' : State} (hstep : s.sendReturns = some s') : Keeps s s' := by
  unfold State.sendReturns at hstep
  split at hstep
  case h_4 output _ =>
    cases hstep
    unfold State.countOutput
    dsimp only
    split
    · have hclose := keeps_close { s with run := { s.run with bytesSent := s.run.bytesSent + output.length } }
      exact ⟨hclose.file, hclose.received, hclose.readings⟩
    · exact ⟨rfl, rfl, rfl⟩
  all_goals
    cases hstep
    try exact ⟨rfl, rfl, rfl⟩

/-! ### Whole runs -/

theorem Stage.receives {s : State} (h : Stage s) (hphase : s.phase = .receiving) : Receives s := by
  cases h with
  | receiving _ hreceives => exact hreceives
  | failed e hfailed => rw [hphase] at hfailed; cases hfailed
  | handed hhanded => rw [hphase] at hhanded; cases hhanded
  | answering hresponds =>
    unfold Responds at hresponds
    rw [hphase] at hresponds
    exact hresponds.elim

theorem Stage.hands {s : State} (h : Stage s) (hphase : s.phase = .handed) : Fresh s ∧ Holds s := by
  cases h with
  | receiving hreceiving => rw [hphase] at hreceiving; cases hreceiving
  | failed e hfailed => rw [hphase] at hfailed; cases hfailed
  | handed _ hfresh hholds => exact ⟨hfresh, hholds⟩
  | answering hresponds =>
    unfold Responds at hresponds
    rw [hphase] at hresponds
    exact hresponds.elim

theorem Stage.calls {s : State} (h : Stage s) (hphase : s.phase = .application) : Called s ∧ Opened s.run ∧ Holds s := by
  cases h with
  | receiving hreceiving => rw [hphase] at hreceiving; cases hreceiving
  | failed e hfailed => rw [hphase] at hfailed; cases hfailed
  | handed hhanded => rw [hphase] at hhanded; cases hhanded
  | answering hresponds hholds =>
    unfold Responds at hresponds
    rw [hphase] at hresponds
    exact ⟨⟨hresponds.1, hresponds.2.1⟩, hresponds.2.2, hholds⟩

theorem Stage.sends {s : State} (h : Stage s) (hsending : s.sending = true) : Responds s ∧ Holds s := by
  cases h with
  | receiving hreceiving => rw [State.sending, hreceiving] at hsending; cases hsending
  | failed e hfailed => rw [State.sending, hfailed] at hsending; cases hsending
  | handed hhanded => rw [State.sending, hhanded] at hsending; cases hsending
  | answering hresponds hholds => exact ⟨hresponds, hholds⟩

theorem sending_of_sendReturns {s s' : State} (hstep : s.sendReturns = some s') : s.sending = true := by
  unfold State.sendReturns at hstep
  unfold State.sending
  cases hphase : s.phase with
  | receiving | handed | application | ended =>
    rw [hphase] at hstep
    cases hstep
  | refusingStart | refusingBody | start | body | closingStart | closing => rfl

variable {u : Unicode} {r : Request}

/-- **A step of the call.** -/
theorem stage_step {s s' : State} {a : Action} (h : Stage s) (hstep : (machine u r).step s a = some s') : Stage s' := by
  cases a with
  | receive m =>
    obtain ⟨hphase, heq⟩ := Option.ite_none_right_eq_some.1 hstep
    cases heq
    exact stage_receive (h.receives hphase) hphase m
  | receiveRaises e =>
    obtain ⟨hphase, heq⟩ := Option.ite_none_right_eq_some.1 hstep
    cases heq
    have hfresh := (h.receives hphase).fresh
    exact .failed e rfl ⟨hfresh.run, hfresh.refusal, hfresh.environ, hfresh.readings⟩
  | runWsgiApp =>
    obtain ⟨hphase, heq⟩ := Option.ite_none_right_eq_some.1 hstep
    cases heq
    obtain ⟨hfresh, hholds⟩ := h.hands hphase
    exact stage_build r hfresh hholds
  | app event =>
    cases event with
    | call args =>
      obtain ⟨hphase, heq⟩ := Option.ite_none_right_eq_some.1 hstep
      cases heq
      obtain ⟨hcalled, hopened, hholds⟩ := h.calls hphase
      refine .answering ?_ (hholds.keep ⟨rfl, rfl, rfl⟩)
      unfold Responds
      rw [hphase]
      exact ⟨hcalled.environ, hcalled.refusal, opened_callStartResponse hopened args⟩
    | chunk output =>
      obtain ⟨hphase, heq⟩ := Option.ite_none_right_eq_some.1 hstep
      cases heq
      obtain ⟨hcalled, hopened, hholds⟩ := h.calls hphase
      exact .answering (responds_output hcalled hopened output) (hholds.keep (keeps_output s output))
  | read how =>
    obtain ⟨hphase, heq⟩ := Option.ite_none_right_eq_some.1 hstep
    cases heq
    obtain ⟨hcalled, hopened, hholds⟩ := h.calls hphase
    refine .answering ?_ (hholds.read how)
    unfold Responds
    rw [show (s.read how).phase = .application from hphase]
    exact ⟨hcalled.environ, hcalled.refusal, hopened⟩
  | returned =>
    obtain ⟨hphase, heq⟩ := Option.ite_none_right_eq_some.1 hstep
    cases heq
    obtain ⟨hcalled, hopened, hholds⟩ := h.calls hphase
    exact .answering (responds_close hcalled hopened) (hholds.keep (keeps_close s))
  | raised e =>
    obtain ⟨hphase, heq⟩ := Option.ite_none_right_eq_some.1 hstep
    cases heq
    obtain ⟨hcalled, hopened, hholds⟩ := h.calls hphase
    have hanswers := hcalled.answers_opened hopened
    exact .answering (responds_failed rfl hanswers) (hholds.keep ⟨rfl, rfl, rfl⟩)
  | sendReturns =>
    obtain ⟨hresponds, hholds⟩ := h.sends (sending_of_sendReturns hstep)
    exact .answering (responds_sendReturns hresponds hstep) (hholds.keep (keeps_sendReturns hstep))
  | sendRaises e =>
    obtain ⟨hsending, heq⟩ := Option.ite_none_right_eq_some.1 hstep
    cases heq
    obtain ⟨hresponds, hholds⟩ := h.sends hsending
    have hanswers := hresponds.answers
    exact .answering (responds_failed rfl hanswers) (hholds.keep ⟨rfl, rfl, rfl⟩)

theorem stage_run {type : Option String} {s : State} {as : List Action}
    (hrun : (machine u r).run (State.init type) as = some s) : Stage s :=
  (machine u r).run_invariant (fun _ _ _ h hs => stage_step h hs) (stage_init type) hrun

/-- **The request is received as a whole, and then the response is sent.**  In every run, whatever `receive` returns or
raises, the application does and `send` raises, the messages sent are in their order the first ones of one response,
all of them if the call returns; the application is called and messages are sent only for a whole request, and
`receive` is called only before. -/
theorem exchange {type : Option String} {s : State} {as : List Action}
    (hrun : (machine u r).run (State.init type) as = some s) :
    (∃ response, Response s.environ response ∧ s.sent <+: response ∧ (s.phase = .ended (.ok ()) → s.sent = response)) ∧
      (s.sent ≠ [] ∨ s.environ ≠ none → Whole s.received) ∧
      ∀ m s', (machine u r).step s (.receive m) = some s' → Partial s.received ∧ s.sent = [] ∧ s.environ = none := by
  have hstage := stage_run hrun
  have hnothing (hfresh : Fresh s) (hphase : s.phase ≠ .ended (.ok ())) :
      (∃ response, Response s.environ response ∧ s.sent <+: response ∧
        (s.phase = .ended (.ok ()) → s.sent = response)) ∧ (s.sent ≠ [] ∨ s.environ ≠ none → Whole s.received) := by
    refine ⟨⟨badRequest, .inl ⟨hfresh.environ, rfl⟩, ?_, fun hended => absurd hended hphase⟩, ?_⟩
    · rw [hfresh.sent]
      exact List.nil_prefix
    · rintro (hsent | henviron)
      · exact absurd hfresh.sent hsent
      · exact absurd hfresh.environ henviron
  rw [← and_assoc]
  constructor
  · cases hstage with
    | receiving hphase hreceives => exact hnothing hreceives.fresh (by rw [hphase]; simp)
    | failed e hphase hfresh => exact hnothing hfresh (by rw [hphase]; simp)
    | handed hphase hfresh => exact hnothing hfresh (by rw [hphase]; simp)
    | answering hresponds hholds =>
      refine ⟨?_, fun _ => hholds.whole⟩
      by_cases hended : s.phase = .ended (.ok ())
      · unfold Responds at hresponds
        rw [hended] at hresponds
        obtain ⟨response, hresponse, hbegins, hall⟩ := hresponds
        exact ⟨response, hresponse, hbegins, fun _ => hall rfl⟩
      · obtain ⟨response, hresponse, hbegins⟩ := hresponds.answers
        exact ⟨response, hresponse, hbegins, fun h => absurd h hended⟩
  · intro m s' hstep
    obtain ⟨hphase, -⟩ := Option.ite_none_right_eq_some.1 hstep
    have hreceives := hstage.receives hphase
    exact ⟨hreceives.goesOn, hreceives.fresh.sent, hreceives.fresh.environ⟩

/-- A request for the sample scope. -/
def postRequest : Wsgi.Request := ⟨some 100, sampleScope none, 0⟩

/-- The body comes in two messages; the application reads it and answers. -/
def posted : List Action :=
  [.receive ⟨some "http.request", some (some [1, 2, 10]), true⟩, .receive ⟨some "http.request", some (some [3]), false⟩,
    .runWsgiApp, .app (.call ⟨str "200 OK", [], none⟩), .read (.read (some 1)), .read (.readline none),
    .app (.chunk [7]), .sendReturns, .sendReturns, .returned, .sendReturns]

theorem exchange_posted : ∃ s, (machine .asciiOnly postRequest).run (State.init (some "http")) posted = some s ∧
    s.phase = .ended (.ok ()) ∧ (s.sent ≠ [] ∨ s.environ ≠ none → Whole s.received) ∧
      ∃ response, Response s.environ response ∧ s.sent <+: response ∧
        (s.phase = .ended (.ok ()) → s.sent = response) := by
  refine ⟨_, rfl, rfl, ?_⟩
  obtain ⟨hresponse, hwhole, -⟩ := @exchange .asciiOnly postRequest (some "http") _ posted rfl
  exact ⟨hwhole, hresponse⟩

/-- **The application reads what was received.**  In every run, what it has read so far, in whatever pieces and however
the body was cut into messages, are the first bytes of what the messages carry; `read()` gives it all the others. -/
theorem body_read {type : Option String} {s : State} {as : List Action}
    (hrun : (machine u r).run (State.init type) as = some s) :
    s.readings.flatten <+: bodyOf s.received ∧
      ∀ s', (machine u r).step s (.read (.read none)) = some s' → Whole s'.received ∧
        s'.readings.flatten = bodyOf s'.received := by
  have hread {s : State} (h : Holds s) : s.readings.flatten <+: bodyOf s.received := by
    rw [h.readings, h.content]
    exact List.take_prefix ..
  have hnothing (hfresh : Fresh s) : s.readings.flatten <+: bodyOf s.received := by
    rw [hfresh.readings]
    exact List.nil_prefix
  have hstage := stage_run hrun
  constructor
  · cases hstage with
    | receiving _ hreceives => exact hnothing hreceives.fresh
    | failed _ _ hfresh => exact hnothing hfresh
    | handed _ hfresh => exact hnothing hfresh
    | answering _ hholds => exact hread hholds
  · intro s' hstep
    obtain ⟨hphase, heq⟩ := Option.ite_none_right_eq_some.1 hstep
    cases heq
    have hholds := (hstage.calls hphase).2.2.read (.read none)
    refine ⟨hholds.whole, ?_⟩
    rw [hholds.readings, ← hholds.content]
    exact List.take_of_length_le (Nat.le_of_eq (File.position_read_none s.file).symm)

theorem body_read_posted : ∃ s, (machine .asciiOnly postRequest).run (State.init (some "http")) posted = some s ∧
    s.readings = [[1], [2, 10]] ∧ s.readings.flatten <+: bodyOf s.received :=
  ⟨_, rfl, rfl, (@body_read .asciiOnly postRequest (some "http") _ posted rfl).1⟩

end Asgiref.Wsgi.Conversation
