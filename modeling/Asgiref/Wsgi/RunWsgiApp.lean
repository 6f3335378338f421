import Asgiref.Wsgi.StartResponse
import Mathlib.Tactic.Common

/-!
# `WsgiToAsgiInstance.run_wsgi_app`

The part of the method that runs the application, once the environ is built.  What the application does is a list
of events with an ending: it knows what each of its calls of `start_response` ended with, so every way it can
react to that is one such list.

* `runWsgiApp` — the `for` loop and the two statements after it;
* `loop_started` — the loop once the response has started: it sends the bodies clamped.
-/

namespace Asgiref.Wsgi

open Asgiref.Python

/-- The messages the adapter sends. -/
inductive Message where
  | start (s : Start)
  /-- `{"type": "http.response.body", "body": output, "more_body": True}` -/
  | body (output : Bytes)
  /-- `{"type": "http.response.body"}` -/
  | final
  deriving DecidableEq

/-- What the application does between two steps of the adapter. -/
inductive Event where
  /-- It calls `start_response`. -/
  | call (a : StartArgs)
  /-- Its iterator yields a chunk. -/
  | chunk (output : Bytes)
  deriving DecidableEq

/-- What the application does after its last event. -/
inductive Ending where
  | returned
  | raised (e : Exn)
  /-- Nothing yet. -/
  | waiting
  deriving DecidableEq

/-- How the `for` loop is left. -/
inductive Exit where
  | exhausted
  | broke
  | raised (e : Exn)
  | waiting
  deriving DecidableEq

/-- The instance, the variable `bytes_sent`, the messages sent, and every call of `start_response` with what it
ended with. -/
structure Run where
  inst : Instance
  bytesSent : Nat
  sent : List Message
  calls : List (StartArgs × Result Unit)
  deriving DecidableEq

variable (u : Unicode)

/-- `if not self.response_started: …` -/
def sendStart (r : Run) : Run × Result Unit :=
  if r.inst.responseStarted then (r, .ok ())
  else
    let r' := { r with inst := { r.inst with responseStarted := true } }
    match r.inst.responseStart with
    | none => (r', .error .attributeError)
    | some s => ({ r' with sent := r.sent ++ [.start s] }, .ok ())

/-- The output after the Content-Length has been applied. -/
def clampOutput (r : Run) (output : Bytes) : Bytes :=
  match r.inst.responseContentLength with
  | none => output
  | some n =>
    let bytesAllowed := n - (r.bytesSent : Int)
    if bytesAllowed < (output.length : Int) then sliceTo bytesAllowed output else output

/-- The body message for an output, and `bytes_sent += len(output)`. -/
def sendBody (r : Run) (output : Bytes) : Run :=
  { r with
    sent := r.sent ++ [.body (clampOutput r output)]
    bytesSent := r.bytesSent + (clampOutput r output).length }

/-- The application calls `start_response`. -/
def callStartResponse (r : Run) (a : StartArgs) : Run :=
  { r with
    inst := (startResponse u r.inst a).1
    calls := r.calls ++ [(a, (startResponse u r.inst a).2)] }

/-- `for output in self.wsgi_application(environ, self.start_response): …` -/
def loop (r : Run) (ending : Ending) : List Event → Run × Exit
  | [] =>
    match ending with
    | .returned => (r, .exhausted)
    | .raised e => (r, .raised e)
    | .waiting => (r, .waiting)
  | .call a :: evs => loop (callStartResponse u r a) ending evs
  | .chunk output :: evs =>
    match sendStart r with
    | (r', .error e) => (r', .raised e)
    | (r', .ok ()) =>
      let r'' := sendBody r' output
      if some (r''.bytesSent : Int) = r''.inst.responseContentLength then (r'', .broke)
      else loop r'' ending evs

/-- The statements after the loop. -/
def close (r : Run) : Run × Ending :=
  match sendStart r with
  | (r', .error e) => (r', .raised e)
  | (r', .ok ()) => ({ r' with sent := r'.sent ++ [.final] }, .returned)

def Run.init : Run := ⟨.init, 0, [], []⟩

/-- What follows the loop, by the way it was left. -/
def afterLoop : Run × Exit → Run × Ending
  | (r, .exhausted) | (r, .broke) => close r
  | (r, .raised e) => (r, .raised e)
  | (r, .waiting) => (r, .waiting)

/-- `run_wsgi_app`, from `# Run the WSGI app` on. -/
def runWsgiApp (evs : List Event) (ending : Ending) : Run × Ending := afterLoop (loop u .init ending evs)

/-! ### What is said of a run -/

/-- The last accepted call, after one more call. -/
def accept (last : Option StartArgs) (a : StartArgs) : Result Unit → Option StartArgs
  | .ok () => some a
  | .error _ => last

/-- The last call of `start_response` that did not raise. -/
def Run.lastAccepted (r : Run) : Option StartArgs := r.calls.foldl (fun last c => accept last c.1 c.2) none

/-- The whole sequence of messages. -/
def complete (start : Start) (bodies : List Bytes) : List Message := .start start :: bodies.map .body ++ [.final]

/-- The adapter leaves the loop before the application has ended. -/
def StoppedEarly (evs : List Event) (ending : Ending) : Prop := (loop u .init ending evs).2 = .broke

/-- The chunks among the events. -/
def chunks : List Event → List Bytes
  | [] => []
  | .call _ :: evs => chunks evs
  | .chunk output :: evs => output :: chunks evs

/-- The first `n` bytes, or all of them. -/
def clamp (n : Option Nat) (bytes : Bytes) : Bytes :=
  match n with
  | none => bytes
  | some n => bytes.take n

/-- There are chunks, of so many bytes at least. -/
def fills : Option Nat → List Bytes → Bool
  | none, _ => false
  | some n, cs => cs ≠ [] ∧ n ≤ cs.flatten.length

section

variable {u}

theorem lastAccepted_callStartResponse (r : Run) (a : StartArgs) :
    (callStartResponse u r a).lastAccepted = accept r.lastAccepted a (startResponse u r.inst a).2 := by
  simp [Run.lastAccepted, callStartResponse, List.foldl_append]

theorem sendStart_started {r : Run} (h : r.inst.responseStarted = true) : sendStart r = (r, .ok ()) := by
  simp [sendStart, h]

theorem close_started {r : Run} (h : r.inst.responseStarted = true) :
    close r = ({ r with sent := r.sent ++ [.final] }, .returned) := by
  simp [close, sendStart_started h]

/-! ### Once the response has started -/

/-- The state of the adapter in a started response: `n` is the number the start message announces. -/
structure Run.Started (r : Run) (n : Option Nat) : Prop where
  started : r.inst.responseStarted = true
  length : r.inst.responseContentLength = n.map Int.ofNat
  sent_le : ∀ m, n = some m → r.bytesSent ≤ m

/-- What is still to be sent of the bytes the start message announces. -/
def Run.left (r : Run) (n : Option Nat) : Option Nat := n.map (· - r.bytesSent)

theorem clampOutput_eq {r : Run} {n : Option Nat} (h : r.Started n) (output : Bytes) :
    clampOutput r output = clamp (r.left n) output := by
  unfold clampOutput
  rw [h.length]
  cases n with
  | none => rfl
  | some m =>
    have hle := h.sent_le m rfl
    have hleft : (Int.ofNat m - (r.bytesSent : Int)).toNat = m - r.bytesSent := by
      simp only [Int.ofNat_eq_natCast]
      omega
    show (if _ then _ else _) = output.take (m - r.bytesSent)
    split
    · rw [sliceTo_of_nonneg (by simp only [Int.ofNat_eq_natCast]; omega), hleft]
    · next hlt =>
      refine (List.take_of_length_le ?_).symm
      simp only [Int.ofNat_eq_natCast] at hlt
      omega

theorem length_clamp_le {n : Nat} (bytes : Bytes) : (clamp (some n) bytes).length ≤ n :=
  List.length_take_le n bytes

theorem started_sendBody {r : Run} {n : Option Nat} (h : r.Started n) (output : Bytes) :
    (sendBody r output).Started n := by
  refine ⟨h.started, h.length, ?_⟩
  rintro m rfl
  have hle := h.sent_le m rfl
  have hlen := length_clamp_le (n := m - r.bytesSent) output
  show r.bytesSent + (clampOutput r output).length ≤ m
  rw [clampOutput_eq h output]
  show r.bytesSent + (clamp (some (m - r.bytesSent)) output).length ≤ m
  omega

theorem started_callStartResponse {r : Run} {n : Option Nat} (h : r.Started n) (a : StartArgs) :
    (callStartResponse u r a).Started n := by
  have hi : (callStartResponse u r a).inst = r.inst := by simp [callStartResponse, startResponse_started h.started]
  exact ⟨hi ▸ h.started, hi ▸ h.length, h.sent_le⟩

theorem bytesSent_sendBody {r : Run} {n : Option Nat} (h : r.Started n) (output : Bytes) :
    (sendBody r output).bytesSent = r.bytesSent + (clamp (r.left n) output).length := by
  rw [← clampOutput_eq h output]
  rfl

/-- The bytes of one chunk, and then what is left of the others. -/
theorem clamp_append {r : Run} {n : Option Nat} (h : r.Started n) (output rest : Bytes) :
    clamp (r.left n) (output ++ rest) =
      clampOutput r output ++ clamp ((sendBody r output).left n) rest := by
  rw [clampOutput_eq h output]
  cases n with
  | none => rfl
  | some m =>
    have hsent : (sendBody r output).bytesSent = r.bytesSent + (output.take (m - r.bytesSent)).length :=
      bytesSent_sendBody h output
    show (output ++ rest).take (m - r.bytesSent) =
      output.take (m - r.bytesSent) ++ rest.take (m - (sendBody r output).bytesSent)
    rw [List.take_append, hsent, List.length_take]
    congr 2
    omega

theorem loop_chunk {r : Run} {n : Option Nat} (h : r.Started n) (ending : Ending) (output : Bytes) (evs : List Event) :
    loop u r ending (.chunk output :: evs) =
      if some ((sendBody r output).bytesSent : Int) = (sendBody r output).inst.responseContentLength
      then (sendBody r output, .broke) else loop u (sendBody r output) ending evs := by
  rw [loop, sendStart_started h.started]

/-- **The loop in a started response.**  Only bodies are sent.  If the loop is left without an exception, their bytes
are the first ones of all the chunks. -/
theorem loop_started {r : Run} {n : Option Nat} (h : r.Started n) (ending : Ending) (evs : List Event) :
    ∃ bodies : List Bytes,
      (loop u r ending evs).1.sent = r.sent ++ bodies.map .body ∧
      (loop u r ending evs).1.Started n ∧
      (loop u r ending evs).1.lastAccepted = r.lastAccepted ∧
      (ending = .returned → (loop u r ending evs).2 = .exhausted ∨ (loop u r ending evs).2 = .broke) ∧
      ((loop u r ending evs).2 = .exhausted ∨ (loop u r ending evs).2 = .broke →
        bodies.flatten = clamp (r.left n) (chunks evs).flatten) := by
  induction evs generalizing r with
  | nil =>
    refine ⟨[], ?_⟩
    cases ending with
    | returned => exact ⟨by simp [loop], h, rfl, fun _ => Or.inl rfl, fun _ => by cases n <;> simp [clamp, chunks, Run.left]⟩
    | raised e => exact ⟨by simp [loop], h, rfl, nofun, by simp [loop]⟩
    | waiting => exact ⟨by simp [loop], h, rfl, nofun, by simp [loop]⟩
  | cons ev evs ih =>
    cases ev with
    | call a =>
      obtain ⟨bodies, hsent, hstarted, hlast, hend, hbytes⟩ := ih (started_callStartResponse (u := u) h a)
      refine ⟨bodies, hsent, hstarted, hlast.trans ?_, hend, hbytes⟩
      rw [lastAccepted_callStartResponse, startResponse_started h.started]
      rfl
    | chunk output =>
      have hbody := started_sendBody h output
      rw [loop_chunk h]
      have hchunks : (chunks (.chunk output :: evs)).flatten = output ++ (chunks evs).flatten := rfl
      split
      · next heq =>
        -- all that was announced has been sent, so nothing is left for the other chunks
        refine ⟨[clampOutput r output], rfl, hbody, rfl, fun _ => Or.inr rfl, fun _ => ?_⟩
        rw [hchunks, clamp_append h]
        rw [hbody.length] at heq
        cases n with
        | none => cases heq
        | some m =>
          have hm : (sendBody r output).bytesSent = m := Int.ofNat.inj (Option.some.inj heq)
          simp [Run.left, hm, clamp]
      · obtain ⟨bodies, hsent, hstarted, hlast, hend, hbytes⟩ := ih hbody
        refine ⟨clampOutput r output :: bodies, ?_, hstarted, hlast, hend, fun hx => ?_⟩
        · rw [hsent]
          simp [sendBody]
        · rw [hchunks, clamp_append h, ← hbytes hx]
          rfl

/-- The loop is left early iff the chunks have as many bytes as are left of those announced. -/
theorem broke_iff {r : Run} {n : Option Nat} (h : r.Started n) (ending : Ending) (evs : List Event) :
    (loop u r ending evs).2 = .broke ↔ fills (r.left n) (chunks evs) = true := by
  induction evs generalizing r with
  | nil =>
    have hnot : fills (r.left n) (chunks []) = false := by cases n <;> simp [fills, Run.left, chunks]
    rw [hnot]
    cases ending <;> simp [loop]
  | cons ev evs ih =>
    cases ev with
    | call a => exact ih (started_callStartResponse (u := u) h a)
    | chunk output =>
      have hbody := started_sendBody h output
      rw [loop_chunk h, hbody.length]
      cases n with
      | none =>
        rw [if_neg (by simp), ih hbody]
        rfl
      | some m =>
        have hle := h.sent_le m rfl
        have hsent : (sendBody r output).bytesSent = r.bytesSent + (output.take (m - r.bytesSent)).length :=
          bytesSent_sendBody h output
        rw [List.length_take] at hsent
        have hfills : fills (r.left (some m)) (chunks (.chunk output :: evs)) = true ↔
            m - r.bytesSent ≤ output.length + (chunks evs).flatten.length := by
          simp [fills, chunks, Run.left]
        rw [hfills]
        split
        · next heq =>
          have heq : (sendBody r output).bytesSent = m := Int.ofNat.inj (Option.some.inj heq)
          exact iff_of_true rfl (by omega)
        · next hne =>
          have hne : (sendBody r output).bytesSent ≠ m := fun heq => hne (by rw [heq]; rfl)
          have hrest : fills ((sendBody r output).left (some m)) (chunks evs) = true ↔
              chunks evs ≠ [] ∧ m - (sendBody r output).bytesSent ≤ (chunks evs).flatten.length := by
            simp [fills, Run.left]
          rw [ih hbody, hrest]
          constructor
          · rintro ⟨-, hrest⟩
            omega
          · intro hall
            refine ⟨fun hnil => ?_, by omega⟩
            rw [hnil, List.flatten_nil, List.length_nil] at hall
            omega

end

end Asgiref.Wsgi
