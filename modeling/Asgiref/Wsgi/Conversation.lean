import Asgiref.Lib.Machine
import Asgiref.Python.File
import Asgiref.Wsgi.DuplicateLimit

/-!
# `WsgiToAsgiInstance.__call__`

One call of the adapter, with the server that gives it messages and takes them, and with the WSGI application.  Between
two suspensions of the coroutine, and between two calls that the thread of the application makes, all is one step.

* `Incoming`, `Reading` — what `receive` returns, and how the application reads the body;
* `State`, `Phase` — where the call is, and what has passed through `receive` and `send`;
* `machine` — the server and the application, in all orders;
* `step_cases` — what a step can do.
-/

namespace Asgiref.Wsgi.Conversation

open Asgiref.Lib Asgiref.Python

/-- A message that `receive` returns. -/
structure Incoming where
  /-- `message["type"]` -/
  type : Option String
  /-- `message["body"]`, which may be missing or `None` -/
  body : Option (Option Bytes)
  /-- the truth of `message.get("more_body")` -/
  moreBody : Bool
  deriving DecidableEq

/-- How the application reads `environ["wsgi.input"]`. -/
inductive Reading where
  | read (size : Option Nat)
  | readline (size : Option Nat)

/-- Where the call is. -/
inductive Phase where
  /-- in `await receive()` -/
  | receiving
  /-- `run_wsgi_app` waits for its thread -/
  | handed
  /-- in the `sync_send` of the refusal: of its start message, and of its body -/
  | refusingStart
  | refusingBody
  /-- The application runs. -/
  | application
  /-- in `self.sync_send(self.response_start)`, with the first output still to be sent -/
  | start (output : Bytes)
  /-- in the `sync_send` of a body -/
  | body (output : Bytes)
  /-- in `self.sync_send(self.response_start)` after the loop -/
  | closingStart
  /-- in `self.sync_send({"type": "http.response.body"})` -/
  | closing
  | ended (r : Result Unit)
  deriving DecidableEq

structure State where
  phase : Phase
  /-- `body` -/
  file : File
  /-- the attributes of the instance, `bytes_sent`, and what the `for` loop and the statements after it have sent -/
  run : Run
  /-- what the answer to a `ValueError` of `build_environ` has sent -/
  refusal : List Sent
  /-- the messages that `receive` has returned -/
  received : List Incoming
  /-- the environ, once the application was called -/
  environ : Option Environ
  /-- what the application has read of the body -/
  readings : List Bytes

/-- All that was sent, in order. -/
def State.sent (s : State) : List Sent := s.refusal ++ s.run.sent.map .message

/-- The check of the scope; its type may be missing. -/
def State.init (type : Option String) : State where
  phase :=
    match type with
    | none => .ended (.error .keyError)
    | some type =>
      if type ≠ "http" then .ended (.error (.valueError "WSGI wrapper received a non-HTTP scope")) else .receiving
  file := .empty
  run := .init
  refusal := []
  received := []
  environ := none
  readings := []

inductive Action where
  | receive (message : Incoming)
  | receiveRaises (e : Exn)
  /-- The thread begins with `run_wsgi_app`. -/
  | runWsgiApp
  /-- The application calls `start_response`, or yields. -/
  | app (event : Event)
  | read (how : Reading)
  /-- The iterator of the application is exhausted. -/
  | returned
  | raised (e : Exn)
  | sendReturns
  | sendRaises (e : Exn)

variable (u : Unicode) (r : Request)

namespace State

/-- `body.write(message.get("body", b""))` and what follows, for a message of the right type. -/
def writeBody (s : State) (message : Incoming) : State :=
  match message.body with
  | some none => { s with phase := .ended (.error (.typeError "a bytes-like object is required, not 'NoneType'")) }
  | some (some data) => more (s.file.write data)
  | none => more (s.file.write [])
where
  /-- `if not message.get("more_body"): break`, and `body.seek(0)` -/
  more (file : File) : State :=
    if message.moreBody then { s with file } else { s with file := file.rewind, phase := .handed }

/-- `message = await receive()` in the loop of `__call__` -/
def receive (s : State) (message : Incoming) : State :=
  let s := { s with received := s.received ++ [message] }
  match message.type with
  | none => { s with phase := .ended (.error .keyError) }
  | some type =>
    if type ≠ "http.request" then
      { s with phase := .ended (.error (.valueError "WSGI wrapper received a non-HTTP-request message")) }
    else s.writeBody message

/-- `environ = self.build_environ(self.scope, body)`, and the start of the answer to a `ValueError` -/
def build (s : State) : State :=
  match buildEnviron r.duplicateHeaderLimit r.scope r.scope r.body with
  | .error e =>
    if e.isValueError then { s with phase := .refusingStart, refusal := badRequest.take 1 }
    else { s with phase := .ended (.error e) }
  | .ok environ => { s with phase := .application, environ := some environ }

/-- The `sync_send` of a body. -/
def sendOutput (s : State) (output : Bytes) : State :=
  { s with
    phase := .body (clampOutput s.run output)
    run := { s.run with sent := s.run.sent ++ [.body (clampOutput s.run output)] } }

/-- One output of the `for` loop. -/
def output (s : State) (output : Bytes) : State :=
  if s.run.inst.responseStarted then s.sendOutput output
  else
    match sendStart s.run with
    | (run, .error e) => { s with run, phase := .ended (.error e) }
    | (run, .ok ()) => { s with run, phase := .start output }

/-- `self.sync_send({"type": "http.response.body"})` -/
def sendFinal (s : State) : State :=
  { s with phase := .closing, run := { s.run with sent := s.run.sent ++ [.final] } }

/-- The statements after the loop. -/
def close (s : State) : State :=
  if s.run.inst.responseStarted then s.sendFinal
  else
    match sendStart s.run with
    | (run, .error e) => { s with run, phase := .ended (.error e) }
    | (run, .ok ()) => { s with run, phase := .closingStart }

/-- `bytes_sent += len(output)` and what follows, to the next output. -/
def countOutput (s : State) (output : Bytes) : State :=
  let run := { s.run with bytesSent := s.run.bytesSent + output.length }
  if some (run.bytesSent : Int) = run.inst.responseContentLength then { s with run }.close
  else { s with run, phase := .application }

/-- `sync_send` returns. -/
def sendReturns (s : State) : Option State :=
  match s.phase with
  | .refusingStart => some { s with phase := .refusingBody, refusal := badRequest }
  | .refusingBody => some { s with phase := .ended (.ok ()) }
  | .start output => some (s.sendOutput output)
  | .body output => some (s.countOutput output)
  | .closingStart => some s.sendFinal
  | .closing => some { s with phase := .ended (.ok ()) }
  | _ => none

/-- The thread is in a `sync_send`. -/
def sending (s : State) : Bool :=
  match s.phase with
  | .refusingStart | .refusingBody | .start _ | .body _ | .closingStart | .closing => true
  | _ => false

def read (s : State) (how : Reading) : State :=
  let p : Bytes × File :=
    match how with
    | .read size => s.file.read size
    | .readline size => s.file.readline size
  { s with file := p.2, readings := s.readings ++ [p.1] }

end State

def step (s : State) : Action → Option State
  | .receive message => if s.phase = .receiving then some (s.receive message) else none
  | .receiveRaises e => if s.phase = .receiving then some { s with phase := .ended (.error e) } else none
  | .runWsgiApp => if s.phase = .handed then some (s.build r) else none
  | .app (.call a) => if s.phase = .application then some { s with run := callStartResponse u s.run a } else none
  | .app (.chunk output) => if s.phase = .application then some (s.output output) else none
  | .read how => if s.phase = .application then some (s.read how) else none
  | .returned => if s.phase = .application then some s.close else none
  | .raised e => if s.phase = .application then some { s with phase := .ended (.error e) } else none
  | .sendReturns => s.sendReturns
  | .sendRaises e => if s.sending then some { s with phase := .ended (.error e) } else none

/-- The adapter in all orders of what the server and the application do. -/
def machine : Machine State Action := ⟨step u r⟩

end Asgiref.Wsgi.Conversation
