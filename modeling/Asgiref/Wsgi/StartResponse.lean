import Asgiref.Python.Str

/-!
# `WsgiToAsgiInstance.start_response`

* `Instance` — the attributes of an instance that `start_response` and `run_wsgi_app` share;
* `startResponse` — the method: the attributes it leaves, with what the call ends with;
* `startOf`, `lengthOf` — the start message a call stands for, and the Content-Length it announces.
-/

namespace Asgiref.Wsgi

open Asgiref.Python

/-- The message `{"type": "http.response.start", …}`. -/
structure Start where
  status : Int
  headers : List (Bytes × Bytes)
  deriving DecidableEq

/-- The arguments of a call of `start_response`.  Of the triple `exc_info` only the value matters. -/
structure StartArgs where
  status : Str
  responseHeaders : List (Str × Str)
  excInfo : Option (Option Exn)
  deriving DecidableEq

/-- `response_started`, `response_content_length`, and `response_start`, which is unset at first. -/
structure Instance where
  responseStarted : Bool
  responseContentLength : Option Int
  responseStart : Option Start
  deriving DecidableEq

/-- `__init__` -/
def Instance.init : Instance := ⟨false, none, none⟩

variable (u : Unicode)

/-- `status_code, _ = status.split(" ", 1); status_code = int(status_code)` -/
def statusCode (status : Str) : Result Int :=
  match split1 (ord ' ') status with
  | [code, _] => int u code
  | _ => .error (.valueError "not enough values to unpack (expected 2, got 1)")

/-- `(name.lower().encode("ascii"), value.encode("ascii"))` -/
def encodeHeader (h : Str × Str) : Result (Bytes × Bytes) := do
  let name ← encodeAscii (u.lower h.1)
  let value ← encodeAscii h.2
  pure (name, value)

theorem encodeHeader_eq_ok {u : Unicode} {h : Str × Str} {b : Bytes × Bytes} :
    encodeHeader u h = .ok b ↔ encodeAscii (u.lower h.1) = .ok b.1 ∧ encodeAscii h.2 = .ok b.2 := by
  simp only [encodeHeader, bind_eq_ok, pure, Except.pure, Except.ok.injEq]
  constructor
  · rintro ⟨name, hname, value, hvalue, rfl⟩
    exact ⟨hname, hvalue⟩
  · rintro ⟨hname, hvalue⟩
    exact ⟨b.1, hname, b.2, hvalue, rfl⟩

/-- `name.lower() == "content-length"` -/
def isContentLength (h : Str × Str) : Bool := u.lower h.1 = str "content-length"

/-- The loop that sets `self.response_content_length`: what it leaves there, with the exception `int` raised. -/
def readContentLength (cur : Option Int) : List (Str × Str) → Option Int × Option Exn
  | [] => (cur, none)
  | h :: hs =>
    if isContentLength u h then
      match int u h.2 with
      | .ok n => readContentLength (some n) hs
      | .error e => (cur, some e)
    else readContentLength cur hs

/-- `raise exc_info[1].with_traceback(exc_info[2])`: the exception that is raised. -/
def reraised : Option (Option Exn) → Exn
  | none => .typeError "'NoneType' object is not subscriptable"
  | some none => .attributeError
  | some (some e) => e

/-- The start message the arguments stand for. -/
def startOf (a : StartArgs) : Result Start := do
  let status ← statusCode u a.status
  let headers ← a.responseHeaders.mapM (encodeHeader u)
  pure ⟨status, headers⟩

theorem startOf_eq_ok {u : Unicode} {a : StartArgs} {start : Start} : startOf u a = .ok start ↔
    statusCode u a.status = .ok start.status ∧ a.responseHeaders.mapM (encodeHeader u) = .ok start.headers := by
  simp only [startOf, bind_eq_ok, pure, Except.pure, Except.ok.injEq]
  constructor
  · rintro ⟨status, hstatus, bs, hbs, rfl⟩
    exact ⟨hstatus, hbs⟩
  · rintro ⟨hstatus, hbs⟩
    exact ⟨start.status, hstatus, start.headers, hbs, rfl⟩

/-- `start_response(status, response_headers, exc_info)` -/
def startResponse (i : Instance) (a : StartArgs) : Instance × Result Unit :=
  if i.responseStarted then (i, .error (reraised a.excInfo))
  else if i.responseStart.isSome ∧ a.excInfo.isNone then
    (i, .error (.valueError "You cannot call start_response a second time without exc_info"))
  else
    match startOf u a with
    | .error e => (i, .error e)
    | .ok start =>
      match readContentLength u none a.responseHeaders with
      | (length, some e) => ({ i with responseContentLength := length }, .error e)
      | (length, none) => ({ i with responseContentLength := length, responseStart := some start }, .ok ())

/-! ### What a call announces -/

/-- Every Content-Length value of the call is a natural number, of any size. -/
def NaturalLengths (a : StartArgs) : Prop :=
  ∀ h ∈ a.responseHeaders, isContentLength u h = true → ∃ n : Nat, numeral u h.2 = some (Int.ofNat n)

/-- The number in the last Content-Length header of the call. -/
def lengthOf (a : StartArgs) : Option Nat :=
  (a.responseHeaders.filter (isContentLength u)).getLast?.bind fun h => (numeral u h.2).map Int.toNat

section

variable {u}

theorem startResponse_started {i : Instance} (h : i.responseStarted = true) (a : StartArgs) :
    startResponse u i a = (i, .error (reraised a.excInfo)) := by
  simp [startResponse, h]

theorem responseStarted_startResponse (i : Instance) (a : StartArgs) :
    (startResponse u i a).1.responseStarted = i.responseStarted := by
  unfold startResponse
  repeat' split
  all_goals rfl

end

end Asgiref.Wsgi
