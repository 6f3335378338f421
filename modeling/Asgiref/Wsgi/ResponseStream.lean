import Asgiref.Wsgi.ContentLength
import Asgiref.Wsgi.RunWsgiApp

/-!
# The response stream

The messages of a whole run of `run_wsgi_app`, where every Content-Length the application passes is a natural number.

* `ExactStream` — the messages are well formed, and clamped to what the last accepted call of `start_response`
  announces;
* `Standing` — what the calls before the first chunk come to: one with a Content-Length that `int` does not read is not
  accepted, and yet takes away the length of an earlier one that was;
* `LengthStands` — the condition on a run, that the length that is left is worth the one announced;
* `exactStream_iff` — the runs with the former are those that meet the latter.
-/

namespace Asgiref.Wsgi

open Asgiref.Python

variable (u : Unicode)

/-- **Well formed and clamped exactly.**  The messages are a prefix of a whole sequence whose start message is that of
the last accepted call of `start_response`.  If one was accepted and the application ends normally or is stopped early,
the whole sequence is sent, and its bodies are the first bytes of all the chunks, as many as that call announces. -/
structure ExactStream (evs : List Event) (ending : Ending) : Prop where
  starts : (runWsgiApp u evs ending).1.sent = [] ∨
    ∃ a start bodies, (runWsgiApp u evs ending).1.lastAccepted = some a ∧ startOf u a = .ok start ∧
      (runWsgiApp u evs ending).1.sent <+: complete start bodies
  whole : ∀ a, (runWsgiApp u evs ending).1.lastAccepted = some a → ending = .returned ∨ StoppedEarly u evs ending →
    ∃ start bodies, startOf u a = .ok start ∧ (runWsgiApp u evs ending).1.sent = complete start bodies ∧
      bodies.flatten = clamp (lengthOf u a) (chunks evs).flatten

/-! ### The calls before the first chunk -/

/-- The calls of `start_response` before the first chunk. -/
def callsBefore : List Event → List StartArgs
  | .call a :: evs => a :: callsBefore evs
  | _ => []

/-- The last Content-Length of a call, up to the first one that `int` does not read. -/
def lengthRead (a : StartArgs) : Option Nat :=
  ((lengths u a.responseHeaders).takeWhile Except.isOk).getLast?.bind fun r => r.toOption.map Int.toNat

/-- What some calls come to: the last one that was accepted, and the last one that came to its Content-Lengths. -/
structure Standing where
  accepted : Option StartArgs
  reached : Option StartArgs

/-- One more call: it may be refused at once, or be accepted, or have a Content-Length that `int` does not read. -/
def Standing.next (p : Standing) (a : StartArgs) : Standing :=
  if p.accepted.isSome ∧ a.excInfo.isNone ∨ (startOf u a).isOk = false then p
  else if (lengths u a.responseHeaders).all Except.isOk then ⟨some a, some a⟩
  else { p with reached := some a }

def standing (calls : List StartArgs) : Standing := calls.foldl (Standing.next u) ⟨none, none⟩

/-- **The condition on a run.**  The Content-Length that the last call has left clamps the body as the one does that the
last accepted call announces, unless the body may break off: the application does not end normally, and yields fewer
bytes than are left. -/
def LengthStands (evs : List Event) (ending : Ending) : Prop :=
  ∀ a ∈ (standing u (callsBefore evs)).accepted, ∀ b ∈ (standing u (callsBefore evs)).reached,
    ending = .returned ∨ fills (lengthRead u b) (chunks evs) = true →
    clamp (lengthRead u b) (chunks evs).flatten = clamp (lengthOf u a) (chunks evs).flatten

section

variable {u}

/-! ### Before the response has started -/

/-- The lengths that `int` reads are natural numbers. -/
theorem lengthRead_toInt {a : StartArgs} (hn : NaturalLengths u a) :
    ((lengths u a.responseHeaders).takeWhile Except.isOk).getLast?.bind Except.toOption =
      (lengthRead u a).map Int.ofNat := by
  unfold lengthRead
  cases hlast : ((lengths u a.responseHeaders).takeWhile Except.isOk).getLast? with
  | none => rfl
  | some r =>
    have hmem := List.mem_of_getLast? hlast
    obtain ⟨m, rfl⟩ := ok_of_mem_takeWhile hmem
    obtain ⟨h, hh, hint⟩ := List.mem_map.1 ((List.takeWhile_sublist _).subset hmem)
    obtain ⟨hh, hc⟩ := List.mem_filter.1 hh
    obtain ⟨n, hnum⟩ := hn h hh hc
    cases hnum.symm.trans (int_eq_ok.1 hint).1
    rfl

/-- A call whose Content-Lengths `int` reads leaves the one that it announces. -/
theorem lengthRead_eq {a : StartArgs} (hall : (lengths u a.responseHeaders).all Except.isOk = true) :
    lengthRead u a = lengthOf u a := by
  unfold lengthRead lengthOf
  rw [List.takeWhile_eq_self_iff.2 (List.all_eq_true.1 hall), lengths, List.getLast?_map]
  cases hlast : (a.responseHeaders.filter (isContentLength u)).getLast? with
  | none => rfl
  | some h =>
    have hok := List.all_eq_true.1 hall (int u h.2) (List.mem_map.2 ⟨h, List.mem_of_getLast? hlast, rfl⟩)
    obtain ⟨m, hm⟩ := isOk_iff.1 hok
    show (int u h.2).toOption.map Int.toNat = (numeral u h.2).map Int.toNat
    rw [hm, (int_eq_ok.1 hm).1]
    rfl

/-- The state of the adapter before the first chunk, after calls that come to `p`. -/
structure Run.Fresh (u : Unicode) (r : Run) (p : Standing) : Prop where
  not_started : r.inst.responseStarted = false
  nothing_sent : r.sent = [] ∧ r.bytesSent = 0
  last : r.lastAccepted = p.accepted
  start : r.inst.responseStart = p.accepted.bind fun a => (startOf u a).toOption
  length : r.inst.responseContentLength = (p.reached.bind (lengthRead u)).map Int.ofNat
  valid : ∀ a, p.accepted = some a → ∃ start, startOf u a = .ok start
  reached : ∀ a, p.accepted = some a → ∃ b, p.reached = some b

theorem fresh_init : Run.init.Fresh u ⟨none, none⟩ := ⟨rfl, ⟨rfl, rfl⟩, rfl, rfl, rfl, nofun, nofun⟩

/-- Which calls come to the Content-Lengths. -/
theorem Run.Fresh.reaches_iff {r : Run} {p : Standing} (h : r.Fresh u p) (a : StartArgs) :
    Reaches u r.inst a ↔ ¬ (p.accepted.isSome ∧ a.excInfo.isNone ∨ (startOf u a).isOk = false) := by
  have hstart : r.inst.responseStart.isSome = p.accepted.isSome := by
    rw [h.start]
    cases hacc : p.accepted with
    | none => rfl
    | some b =>
      obtain ⟨start, hs⟩ := h.valid b hacc
      rw [Option.bind_some, hs]
      rfl
  rw [Reaches, hstart, h.not_started, not_or, Bool.not_eq_false]
  exact and_iff_right rfl

/-- **One call.**  An accepted call replaces both attributes, and one that comes to a Content-Length that `int` does not
read replaces the length alone. -/
theorem fresh_callStartResponse {r : Run} {p : Standing} {a : StartArgs} (hn : NaturalLengths u a) (h : r.Fresh u p) :
    (callStartResponse u r a).Fresh u (p.next u a) := by
  have hstarted : (callStartResponse u r a).inst.responseStarted = false :=
    (responseStarted_startResponse r.inst a).trans h.not_started
  have hlast := lastAccepted_callStartResponse (u := u) r a
  unfold Standing.next
  split
  · next hrefused =>
    obtain ⟨e, hcall⟩ := startResponse_of_not_reaches fun hr => (h.reaches_iff a).1 hr hrefused
    rw [hcall] at hlast
    have hinst : (callStartResponse u r a).inst = r.inst := by rw [callStartResponse, hcall]
    exact ⟨hstarted, h.nothing_sent, hlast.trans h.last, hinst ▸ h.start, hinst ▸ h.length, h.valid, h.reached⟩
  · next hreach =>
    have hr := (h.reaches_iff a).2 hreach
    split
    · next hall =>
      obtain ⟨start, hs, hcall⟩ := startResponse_replaces hr hall
      have hlength := lengthRead_toInt hn
      rw [List.takeWhile_eq_self_iff.2 (List.all_eq_true.1 hall)] at hlength
      refine ⟨hstarted, h.nothing_sent, ?_, ?_, ?_, ?_, fun _ _ => ⟨a, rfl⟩⟩
      · rw [hlast, hcall]
        rfl
      · rw [callStartResponse, hcall, Option.bind_some, hs]
        rfl
      · rw [callStartResponse, hcall]
        exact hlength
      · rintro b hb
        cases hb
        exact ⟨start, hs⟩
    · next hall =>
      obtain ⟨e, hcall⟩ := startResponse_breaks hr hall
      refine ⟨hstarted, h.nothing_sent, ?_, ?_, ?_, h.valid, fun _ _ => ⟨a, rfl⟩⟩
      · rw [hlast, hcall]
        exact h.last
      · rw [callStartResponse, hcall]
        exact h.start
      · rw [callStartResponse, hcall]
        exact lengthRead_toInt hn

/-- Without an accepted call there is no start message to send. -/
theorem sendStart_none {r : Run} {p : Standing} (h : r.Fresh u p) (hl : p.accepted = none) :
    (sendStart r).2 = .error .attributeError ∧ (sendStart r).1.sent = [] ∧ (sendStart r).1.lastAccepted = none := by
  have hs : r.inst.responseStart = none := by rw [h.start, hl]; rfl
  unfold sendStart
  rw [h.not_started, hs]
  exact ⟨rfl, h.nothing_sent.1, h.last.trans hl⟩

/-- After an accepted call its start message is sent, and the adapter has the length of the last call. -/
theorem sendStart_some {r : Run} {p : Standing} {a : StartArgs} (h : r.Fresh u p) (hl : p.accepted = some a) :
    ∃ s, startOf u a = .ok s ∧ (sendStart r).2 = .ok () ∧ (sendStart r).1.sent = [.start s] ∧
      (sendStart r).1.Started (p.reached.bind (lengthRead u)) ∧ (sendStart r).1.lastAccepted = some a ∧
      (sendStart r).1.bytesSent = 0 := by
  obtain ⟨s, hs⟩ := h.valid a hl
  have hstart : r.inst.responseStart = some s := by
    rw [h.start, hl, Option.bind_some, hs]
    rfl
  refine ⟨s, hs, ?_⟩
  unfold sendStart
  rw [h.not_started, hstart, h.nothing_sent.1]
  exact ⟨rfl, rfl, ⟨rfl, h.length, fun m _ => by rw [h.nothing_sent.2]; exact Nat.zero_le m⟩, h.last.trans hl,
    h.nothing_sent.2⟩

/-! ### Whole runs -/

/-- What the messages of a run are, from the state `r` of the adapter on, where the calls before the first chunk come to
`p`. -/
structure Stream (u : Unicode) (r : Run) (ending : Ending) (evs : List Event) (p : Standing) : Prop where
  last : (afterLoop (loop u r ending evs)).1.lastAccepted = p.accepted
  starts : (afterLoop (loop u r ending evs)).1.sent = [] ∨
    ∃ a start bodies, p.accepted = some a ∧ startOf u a = .ok start ∧
      (afterLoop (loop u r ending evs)).1.sent <+: complete start bodies
  whole : ∀ a, p.accepted = some a → ending = .returned ∨ (loop u r ending evs).2 = .broke →
    ∃ start bodies, startOf u a = .ok start ∧
      (afterLoop (loop u r ending evs)).1.sent = complete start bodies ∧
      bodies.flatten = clamp (p.reached.bind (lengthRead u)) (chunks evs).flatten
  broke : ∀ a, p.accepted = some a →
    ((loop u r ending evs).2 = .broke ↔ fills (p.reached.bind (lengthRead u)) (chunks evs) = true)
  reached : ∀ a, p.accepted = some a → ∃ b, p.reached = some b

/-- A run that has just sent the start message. -/
theorem stream_started {r : Run} {p : Standing} {a b : StartArgs} {s : Start} (hacc : p.accepted = some a)
    (hreached : p.reached = some b) (h : r.Started (p.reached.bind (lengthRead u))) (hs : startOf u a = .ok s)
    (hsent : r.sent = [.start s])
    (hlast : r.lastAccepted = some a) (hzero : r.bytesSent = 0) (ending : Ending) (evs : List Event) :
    Stream u r ending evs p := by
  obtain ⟨bodies, hbodies, hstarted, hkeep, hend, hbytes⟩ := loop_started (u := u) h ending evs
  have hbroke := broke_iff (u := u) h ending evs
  have hleft : r.left (p.reached.bind (lengthRead u)) = p.reached.bind (lengthRead u) := by
    unfold Run.left
    rw [hzero]
    cases p.reached.bind (lengthRead u) <;> rfl
  rw [hleft] at hbytes hbroke
  have hsent' : (loop u r ending evs).1.sent ++ [.final] = complete s bodies := by
    rw [hbodies, hsent]
    rfl
  have hlast' : (loop u r ending evs).1.lastAccepted = some a := hkeep.trans hlast
  cases hx : loop u r ending evs with
  | mk r' x =>
    rw [hx] at hstarted hend hbytes hbroke hsent' hlast'
    have hclosed : x = .exhausted ∨ x = .broke →
        (afterLoop (r', x)).1.sent = complete s bodies ∧ (afterLoop (r', x)).1.lastAccepted = some a := by
      intro hx
      have hafter : afterLoop (r', x) = ({ r' with sent := r'.sent ++ [.final] }, .returned) := by
        rw [← close_started hstarted.started]
        rcases hx with rfl | rfl <;> rfl
      rw [hafter]
      exact ⟨hsent', hlast'⟩
    have hstarts : (afterLoop (r', x)).1.sent <+: complete s bodies ∧ (afterLoop (r', x)).1.lastAccepted = some a := by
      cases x with
      | exhausted => exact ⟨(hclosed (Or.inl rfl)).1 ▸ List.prefix_rfl, (hclosed (Or.inl rfl)).2⟩
      | broke => exact ⟨(hclosed (Or.inr rfl)).1 ▸ List.prefix_rfl, (hclosed (Or.inr rfl)).2⟩
      | raised e => exact ⟨⟨[.final], hsent'⟩, hlast'⟩
      | waiting => exact ⟨⟨[.final], hsent'⟩, hlast'⟩
    constructor
    · rw [hx, hacc]
      exact hstarts.2
    · rw [hx]
      exact Or.inr ⟨a, s, bodies, hacc, hs, hstarts.1⟩
    · rw [hx]
      intro b hb hleave
      cases hacc.symm.trans hb
      have hx' : x = .exhausted ∨ x = .broke := hleave.elim hend Or.inr
      exact ⟨s, bodies, hs, (hclosed hx').1, hbytes hx'⟩
    · rw [hx]
      exact fun _ _ => hbroke
    · exact fun _ _ => ⟨b, hreached⟩

/-- A run that sends nothing, as no call was accepted. -/
theorem stream_nothing {r : Run} {p : Standing} {ending : Ending} {evs : List Event} (hacc : p.accepted = none)
    (hsent : (afterLoop (loop u r ending evs)).1.sent = [])
    (hlast : (afterLoop (loop u r ending evs)).1.lastAccepted = none) : Stream u r ending evs p :=
  have hno : ∀ a, p.accepted ≠ some a := fun a ha => by rw [hacc] at ha; cases ha
  ⟨hlast.trans hacc.symm, Or.inl hsent, fun a ha => absurd ha (hno a), fun a ha => absurd ha (hno a),
    fun a ha => absurd ha (hno a)⟩

/-- Sending the start message early makes no difference to what follows. -/
theorem stream_of_sendStart {r : Run} {p : Standing} {ending : Ending} {evs : List Event}
    (hok : (sendStart r).2 = .ok ()) (hstarted : (sendStart r).1.inst.responseStarted = true)
    (h : Stream u (sendStart r).1 ending evs p)
    (hev : evs = [] ∧ ending = .returned ∨ ∃ output evs', evs = .chunk output :: evs') :
    Stream u r ending evs p := by
  have hpair : sendStart r = ((sendStart r).1, .ok ()) := by rw [← hok]
  have hagain := sendStart_started hstarted
  rcases hev with ⟨rfl, rfl⟩ | ⟨output, evs', rfl⟩
  · have hclose : close r = close (sendStart r).1 := by
      unfold close
      rw [hagain, hpair]
    have hafter : afterLoop (loop u r .returned []) = afterLoop (loop u (sendStart r).1 .returned []) := hclose
    exact ⟨hafter ▸ h.last, hafter ▸ h.starts, fun a ha _ => hafter ▸ h.whole a ha (Or.inl rfl), h.broke, h.reached⟩
  · have hloop : loop u r ending (.chunk output :: evs') = loop u (sendStart r).1 ending (.chunk output :: evs') := by
      rw [loop, loop, hagain, hpair]
    obtain ⟨hlast, hstarts, hwhole, hbroke, hreached⟩ := h
    rw [← hloop] at hlast hstarts hwhole hbroke
    exact ⟨hlast, hstarts, hwhole, hbroke, hreached⟩

/-- The first chunk, or the end where there is none: the start message is due. -/
theorem stream_due {r : Run} {p : Standing} (h : r.Fresh u p) {ending : Ending} {evs : List Event}
    (hev : evs = [] ∧ ending = .returned ∨ ∃ output evs', evs = .chunk output :: evs') : Stream u r ending evs p := by
  cases hl : p.accepted with
  | none =>
    obtain ⟨herr, hsent, hlast⟩ := sendStart_none h hl
    have hpair : sendStart r = ((sendStart r).1, .error .attributeError) := by rw [← herr]
    have hafter : afterLoop (loop u r ending evs) = ((sendStart r).1, .raised .attributeError) := by
      rcases hev with ⟨rfl, rfl⟩ | ⟨output, evs', rfl⟩
      · show close r = _
        unfold close
        rw [hpair]
      · rw [loop, hpair]
        rfl
    exact stream_nothing hl (by rw [hafter]; exact hsent) (by rw [hafter]; exact hlast)
  | some a =>
    obtain ⟨s, hs, hok, hsent, hstarted, hlast, hzero⟩ := sendStart_some h hl
    obtain ⟨b, hb⟩ := h.reached a hl
    exact stream_of_sendStart hok hstarted.started (stream_started hl hb hstarted hs hsent hlast hzero ending evs) hev

/-- The application has not come to its first chunk, and it has not ended. -/
theorem stream_idle {r : Run} {p : Standing} (h : r.Fresh u p) {ending : Ending} (hend : ending ≠ .returned)
    (hrun : (afterLoop (loop u r ending [])).1 = r) (hnot : (loop u r ending []).2 ≠ .broke) :
    Stream u r ending [] p where
  last := by rw [hrun, h.last]
  starts := .inl (by rw [hrun, h.nothing_sent.1])
  whole _ _ hleave := absurd hleave (not_or.2 ⟨hend, hnot⟩)
  broke _ _ := iff_of_false hnot (by cases p.reached.bind (lengthRead u) <;> simp [fills, chunks])
  reached := h.reached

theorem stream_fresh {r : Run} {p : Standing} (h : r.Fresh u p) (ending : Ending) (evs : List Event)
    (hn : ∀ a, .call a ∈ evs → NaturalLengths u a) :
    Stream u r ending evs ((callsBefore evs).foldl (Standing.next u) p) := by
  induction evs generalizing r p with
  | nil =>
    cases ending with
    | returned => exact stream_due h (Or.inl ⟨rfl, rfl⟩)
    | raised e => exact stream_idle h nofun rfl nofun
    | waiting => exact stream_idle h nofun rfl nofun
  | cons ev evs ih =>
    cases ev with
    | call a =>
      have hrest := ih (fresh_callStartResponse (hn a (List.mem_cons_self ..)) h)
        fun b hb => hn b (List.mem_cons_of_mem _ hb)
      exact ⟨hrest.last, hrest.starts, hrest.whole, hrest.broke, hrest.reached⟩
    | chunk output => exact stream_due h (Or.inr ⟨output, evs, rfl⟩)

theorem complete_inj {start start' : Start} {bodies bodies' : List Bytes}
    (h : complete start bodies = complete start' bodies') : bodies = bodies' := by
  have hbodies := List.append_cancel_right (List.cons.inj h).2
  exact (List.map_inj_right fun _ _ hb => Message.body.inj hb).1 hbodies

/-- Where `int` reads every Content-Length, the condition holds. -/
theorem lengthStands_of_readable {evs : List Event} (ending : Ending)
    (h : ∀ a ∈ callsBefore evs, (lengths u a.responseHeaders).all Except.isOk = true) : LengthStands u evs ending := by
  have hsame : ∀ (calls : List StartArgs) (p : Standing),
      (∀ a ∈ calls, (lengths u a.responseHeaders).all Except.isOk = true) →
      (p.accepted = p.reached ∧ ∀ a, p.accepted = some a → lengthRead u a = lengthOf u a) →
      (calls.foldl (Standing.next u) p).accepted = (calls.foldl (Standing.next u) p).reached ∧
        ∀ a, (calls.foldl (Standing.next u) p).accepted = some a → lengthRead u a = lengthOf u a := by
    intro calls
    induction calls with
    | nil => exact fun p _ hp => hp
    | cons a calls ih =>
      intro p hcalls hp
      refine ih _ (fun b hb => hcalls b (List.mem_cons_of_mem a hb)) ?_
      have ha := hcalls a (List.mem_cons_self ..)
      unfold Standing.next
      rw [if_pos ha]
      split
      · exact hp
      · exact ⟨rfl, fun b hb => by cases hb; exact lengthRead_eq ha⟩
  obtain ⟨heq, hread⟩ := hsame (callsBefore evs) ⟨none, none⟩ h ⟨rfl, nofun⟩
  intro a ha b hb _
  cases ha.symm.trans (heq.trans hb)
  rw [hread a ha]

end

/-- **The response stream is well formed and clamped exactly** in those runs in which the Content-Length that the calls
before the first chunk have left is worth as many bytes as the one of the last accepted call. -/
theorem exactStream_iff (evs : List Event) (ending : Ending) (hn : ∀ a, .call a ∈ evs → NaturalLengths u a) :
    ExactStream u evs ending ↔ LengthStands u evs ending := by
  have hstream : Stream u .init ending evs (standing u (callsBefore evs)) := stream_fresh fresh_init ending evs hn
  constructor
  · intro hexact a ha b hb hwhole
    have hleave := hwhole.imp_right fun hfills => (hstream.broke a ha).2 (by rw [hb]; exact hfills)
    obtain ⟨start, bodies, -, hsent, hbytes⟩ := hstream.whole a ha hleave
    obtain ⟨start', bodies', -, hsent', hbytes'⟩ := hexact.whole a (hstream.last.trans ha) hleave
    rw [hb] at hbytes
    rw [← hbytes', complete_inj (hsent'.symm.trans hsent)]
    exact hbytes.symm
  · intro hstands
    refine ⟨?_, fun a ha hleave => ?_⟩
    · obtain hnone | ⟨a, start, bodies, ha, hs, hprefix⟩ := hstream.starts
      · exact .inl hnone
      · exact .inr ⟨a, start, bodies, hstream.last.trans ha, hs, hprefix⟩
    · have ha := hstream.last.symm.trans ha
      obtain ⟨b, hb⟩ := hstream.reached a ha
      obtain ⟨start, bodies, hs, hsent, hbytes⟩ := hstream.whole a ha hleave
      have hbroke := hstream.broke a ha
      rw [hb] at hbytes hbroke
      exact ⟨start, bodies, hs, hsent, hbytes.trans (hstands a ha b hb (hleave.imp_right hbroke.1))⟩

/-- The call `start_response("200 OK", [("Content-Length", "3")], exc_info)`. -/
def sampleStart : StartArgs := ⟨str "200 OK", [(str "Content-Length", str "3")], some (some (.other 0))⟩

/-- An application that replaces its start message, yields `[0, 1]`, `[]` and `[2, 3]`, and would yield `[4]`. -/
def sampleEvents : List Event :=
  [.call ⟨str "404 Not Found", [], none⟩, .call sampleStart,
    .chunk [0, 1], .chunk [], .chunk [2, 3], .chunk [4]]

theorem exactStream_sample : ExactStream .asciiOnly sampleEvents .returned ∧
    (runWsgiApp .asciiOnly sampleEvents .returned).1.lastAccepted = some sampleStart ∧
    lengthOf .asciiOnly sampleStart = some 3 := by
  have hn : ∀ a, .call a ∈ sampleEvents → NaturalLengths .asciiOnly a := by
    intro a ha
    simp only [sampleEvents, List.mem_cons, Event.call.injEq, reduceCtorEq, List.not_mem_nil, or_false] at ha
    rcases ha with rfl | rfl
    · exact nofun
    · rintro h hh -
      cases List.mem_singleton.1 hh
      exact ⟨3, by decide⟩
  exact ⟨(exactStream_iff .asciiOnly sampleEvents .returned hn).2 (lengthStands_of_readable _ (by decide)),
    by decide, by decide⟩

/-- The call `start_response("500 Error", [("Content-Length", value)], exc_info)`. -/
def errorCall (value : Str) : StartArgs := ⟨str "500 Error", [(str "Content-Length", value)], some (some (.other 0))⟩

/-- An application that announces 5 bytes, catches what the second call raises, and yields 6 bytes. -/
def errorEvents (value : Str) : List Event :=
  [.call (lengthCall "200 OK" "5" none), .call (errorCall value), .chunk [0, 1, 2, 3, 4, 5]]

/-- The second call raises, and takes the length of the first away. -/
theorem startResponse_errorCall {value : Str} (hdigits : ∀ c ∈ value, 48 ≤ c ∧ c ≤ 57)
    (hint : ¬ (int .asciiOnly value).isOk = true) {i : Instance} (h : i.responseStarted = false) :
    ∃ e, startResponse .asciiOnly i (errorCall value) = ({ i with responseContentLength := none }, .error e) := by
  have hvalue : encodeAscii value = .ok (value.map fun c => UInt8.ofNat c.val) :=
    if_pos (List.all_eq_true.2 fun c hc =>
      decide_eq_true (Fin.lt_def.2 (Nat.lt_of_le_of_lt (Fin.le_def.1 (hdigits c hc).2) (by decide))))
  have hname : encodeAscii (Unicode.asciiOnly.lower (str "Content-Length")) = .ok (bytes "content-length") := by decide
  have hstatus : statusCode .asciiOnly (str "500 Error") = .ok 500 := by decide
  have hstart : startOf .asciiOnly (errorCall value) =
      .ok ⟨500, [(bytes "content-length", value.map fun c => UInt8.ofNat c.val)]⟩ :=
    startOf_eq_ok.2 ⟨hstatus, mapM_cons_eq_ok.2 ⟨_, [], encodeHeader_eq_ok.2 ⟨hname, hvalue⟩, rfl, rfl⟩⟩
  have hlengths : lengths .asciiOnly (errorCall value).responseHeaders = [int .asciiOnly value] := rfl
  obtain ⟨e, hcall⟩ := startResponse_breaks (u := .asciiOnly) (i := i) (a := errorCall value)
    ⟨h, fun hsecond => Bool.noConfusion hsecond.2, by rw [hstart]; rfl⟩
    (by rw [hlengths]; simpa using hint)
  refine ⟨e, hcall.trans ?_⟩
  rw [hlengths, List.takeWhile_cons_of_neg hint]
  rfl

/-- So nothing clamps the body. -/
theorem runWsgiApp_errorEvents {value : Str} (hdigits : ∀ c ∈ value, 48 ≤ c ∧ c ≤ 57)
    (hint : ¬ (int .asciiOnly value).isOk = true) : ∃ start,
    (runWsgiApp .asciiOnly (errorEvents value) .returned).1.lastAccepted = some (lengthCall "200 OK" "5" none) ∧
    (runWsgiApp .asciiOnly (errorEvents value) .returned).1.sent = complete start [[0, 1, 2, 3, 4, 5]] := by
  obtain ⟨e, hcall⟩ := startResponse_errorCall hdigits hint
    (i := (callStartResponse .asciiOnly .init (lengthCall "200 OK" "5" none)).inst) rfl
  have hrun : callStartResponse .asciiOnly (callStartResponse .asciiOnly .init (lengthCall "200 OK" "5" none))
      (errorCall value) = ⟨⟨false, none, some ⟨200, [(bytes "content-length", bytes "5")]⟩⟩, 0, [],
        [(lengthCall "200 OK" "5" none, .ok ()), (errorCall value, .error e)]⟩ := by
    rw [callStartResponse, hcall]
    rfl
  have hloop : runWsgiApp .asciiOnly (errorEvents value) .returned = afterLoop (loop .asciiOnly
      (callStartResponse .asciiOnly (callStartResponse .asciiOnly .init (lengthCall "200 OK" "5" none))
        (errorCall value)) .returned [.chunk [0, 1, 2, 3, 4, 5]]) := rfl
  rw [hloop, hrun]
  exact ⟨_, rfl, rfl⟩

/-- `"1" * 4301` -/
def longValue : Str := List.replicate 4301 (ord '1')

/-- **A Content-Length of too many digits.**  The response that announces 5 bytes goes out with 6. -/
theorem not_exactStream : (∀ a, .call a ∈ errorEvents longValue → NaturalLengths .asciiOnly a) ∧
    (runWsgiApp .asciiOnly (errorEvents longValue) .returned).1.lastAccepted = some (lengthCall "200 OK" "5" none) ∧
    lengthOf .asciiOnly (lengthCall "200 OK" "5" none) = some 5 ∧
    (∃ start, (runWsgiApp .asciiOnly (errorEvents longValue) .returned).1.sent =
      complete start [[0, 1, 2, 3, 4, 5]]) ∧
    ¬ ExactStream .asciiOnly (errorEvents longValue) .returned := by
  have hlen : longValue.length = 4301 := List.length_replicate
  have hdigits : ∀ c ∈ longValue, 48 ≤ c ∧ c ≤ 57 := fun c hc => by
    rw [(List.mem_replicate.1 hc).2]
    decide
  have hne : longValue ≠ [] := List.ne_nil_of_length_pos (by omega)
  have hint : ¬ (int .asciiOnly longValue).isOk = true := by
    rw [isOk_int_digits hne hdigits, hlen]
    decide
  obtain ⟨start, hlast, hsent⟩ := runWsgiApp_errorEvents hdigits hint
  refine ⟨fun a ha => ?_, hlast, by decide, ⟨start, hsent⟩, fun hexact => ?_⟩
  · simp only [errorEvents, List.mem_cons, Event.call.injEq, reduceCtorEq, List.not_mem_nil, or_false] at ha
    rcases ha with rfl | rfl
    · rintro h hh -
      cases List.mem_singleton.1 hh
      exact ⟨5, by decide⟩
    · rintro h hh -
      cases List.mem_singleton.1 hh
      exact ⟨_, numeral_digits hne hdigits⟩
  · obtain ⟨start', bodies, -, hsent', hbytes⟩ := hexact.whole _ hlast (.inl rfl)
    rw [← complete_inj (hsent.symm.trans hsent')] at hbytes
    have hlen : ([[0, 1, 2, 3, 4, 5]] : List Bytes).flatten.length = 5 := congrArg List.length hbytes
    exact absurd hlen (by decide)

end Asgiref.Wsgi
