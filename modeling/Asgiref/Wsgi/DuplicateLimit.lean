import Asgiref.Wsgi.HeaderEntries
import Asgiref.Wsgi.RunWsgiApp

/-!
# The limit on duplicate headers

`run_wsgi_app` as a whole: it answers a `ValueError` of `build_environ` in the place of the application.

* `Request.runWsgiApp` — the method; `Refused` — the answer about too many duplicate headers;
* `Undecodable` — a string of the scope that `build_environ` comes to has no encoding;
* `raisesValueError_buildEnviron` — when `build_environ` raises a `ValueError`;
* `rejectsExactly_iff` — when exactly the requests over the limit are refused.
-/

namespace Asgiref.Wsgi

open Asgiref.Python Asgiref.Lib

/-- The attributes of an instance that `run_wsgi_app` reads, and its argument. -/
structure Request where
  duplicateHeaderLimit : Option Int
  scope : Scope
  body : Nat

/-- What is sent for a request. -/
inductive Sent where
  | message (m : Message)
  /-- `{"type": "http.response.body", "body": body}` -/
  | lastBody (body : Bytes)
  deriving DecidableEq

/-- What `run_wsgi_app` has sent, the environ the application was called with, and how the method ends. -/
structure Outcome where
  sent : List Sent
  environ : Option Environ
  ending : Ending

/-- The answer where the header limit is exceeded. -/
def badRequest : List Sent :=
  [.message (.start ⟨400, [(bytes "content-type", bytes "text/plain")]⟩),
    .lastBody (bytes "Bad Request: Too many duplicate headers")]

/-- `run_wsgi_app(body)` of an application that does `app environ` when it is called. -/
def Request.runWsgiApp (u : Unicode) (r : Request) (app : Environ → List Event × Ending) : Outcome :=
  match buildEnviron r.duplicateHeaderLimit r.scope r.scope r.body with
  | .error e => if e.isValueError then ⟨badRequest, none, .returned⟩ else ⟨[], none, .raised e⟩
  | .ok environ =>
    let run := Wsgi.runWsgiApp u (app environ).1 (app environ).2
    ⟨run.1.sent.map .message, some environ, run.2⟩

/-- The header list of the request. -/
def Request.headers (r : Request) : List (Bytes × Bytes) := r.scope.headers.getD []

/-- The request is refused, and the application is not called. -/
def Refused (o : Outcome) : Prop := o.sent = badRequest ∧ o.environ = none

/-- Some key gets more values than the limit says. -/
def Request.Exceeds (r : Request) : Prop := ¬ WithinLimit r.duplicateHeaderLimit r.headers

/-- **Exactly the requests over the limit are refused.** -/
structure RejectsExactly (r : Request) (o : Outcome) : Prop where
  positive : ∀ n, r.duplicateHeaderLimit = some n → 0 < n →
    (Refused o ↔ ∃ key, n < (fieldCount key r.headers : Int))
  off : r.duplicateHeaderLimit = none ∨ r.duplicateHeaderLimit = some 0 → ¬ Refused o
  /-- no other defect is reported as too many duplicate headers -/
  other : Refused o → r.Exceeds

/-- A string that `build_environ` comes to cannot be encoded or decoded: `root_path`, `path`, or `query_string`, which it
looks at once it has found a method. -/
def Undecodable (scope : Scope) : Prop :=
  ¬ IsText (scope.rootPath.getD []) ∨ ∃ path, scope.path = some path ∧
    (¬ IsText path ∨ scope.method.isSome ∧ ∃ query, scope.queryString = some query ∧ ∃ b ∈ query, 128 ≤ b.toNat)

/-- **The condition on a request.** -/
structure OnlyTheLimit (r : Request) : Prop where
  decodable : Undecodable r.scope → r.Exceeds
  complete : ∀ n, r.duplicateHeaderLimit = some n → 0 < n → r.Exceeds → Undecodable r.scope ∨ Translatable r.scope

/-! ### The calls that can raise a `ValueError` -/

section

variable {limit : Option Int} {_headers : Headers} {l : List (Bytes × Bytes)}

theorem raisesValueError_latin1View {s : Str} : RaisesValueError (latin1View s) ↔ ¬ IsText s := by
  rw [← latin1View_eq_ok]
  unfold latin1View encodeUtf8
  by_cases h : s.any isSurrogate = true
  · rw [if_pos h]
    exact iff_of_true ⟨_, rfl, rfl⟩ fun ⟨_, hv⟩ => nomatch hv
  · rw [if_neg h]
    exact iff_of_false (not_raisesValueError_ok _) fun hnot => hnot ⟨_, rfl⟩

theorem not_raisesValueError_getItem {α : Type} (o : Option α) : ¬ RaisesValueError (getItem o) := by
  rintro ⟨e, h, he⟩
  cases o with
  | none =>
    cases h
    cases he
  | some a => cases h

theorem raisesValueError_decodeAscii {b : Bytes} : RaisesValueError (decodeAscii b) ↔ ∃ x ∈ b, 128 ≤ x.toNat := by
  unfold decodeAscii
  by_cases h : b.all (·.toNat < 128) = true
  · rw [if_pos h]
    refine iff_of_false (not_raisesValueError_ok _) fun ⟨x, hx, hge⟩ => ?_
    have hlt : x.toNat < 128 := of_decide_eq_true (List.all_eq_true.1 h x hx)
    omega
  · rw [if_neg h]
    refine iff_of_true ⟨_, rfl, rfl⟩ ?_
    simpa using h

theorem not_raisesValueError_setServer (environ : Environ) (server : Option (Option (Str × Option Int))) :
    ¬ RaisesValueError (setServer environ server) := by
  rintro ⟨e, h, he⟩
  unfold setServer at h
  split at h
  · cases h
  · cases h
    cases he
  · cases h

/-- The loop over the headers raises nothing else. -/
theorem isValueError_of_collectHeaders {e : Exn} (h : collectHeaders limit _headers l = .error e) :
    e.isValueError = true := by
  induction l generalizing _headers with
  | nil => cases h
  | cons h₀ l ih =>
    unfold collectHeaders at h
    split at h
    · cases h
      rfl
    · exact ih h

theorem raisesValueError_collectHeaders : RaisesValueError (collectHeaders limit ∅ l) ↔ ¬ WithinLimit limit l := by
  rw [← collectHeaders_empty_eq_ok]
  constructor
  · rintro ⟨e, he, -⟩ ⟨headers, hl⟩
    cases he.symm.trans hl
  · intro hnot
    cases hl : collectHeaders limit ∅ l with
    | ok headers => exact absurd ⟨headers, hl⟩ hnot
    | error e => exact ⟨e, rfl, isValueError_of_collectHeaders hl⟩

end

/-! ### The method as a whole -/

section

variable {limit : Option Int} {scope : Scope} {body : Nat}

/-- **The `ValueError`s of `build_environ`**: a codec raises one, or the limit is exceeded and nothing else is wrong. -/
theorem raisesValueError_buildEnviron : RaisesValueError (buildEnviron limit scope scope body) ↔
    Undecodable scope ∨ Translatable scope ∧ ¬ WithinLimit limit (scope.headers.getD []) := by
  unfold buildEnviron
  simp only [raisesValueError_bind, raisesValueError_latin1View, not_raisesValueError_getItem,
    raisesValueError_decodeAscii, not_raisesValueError_setServer, raisesValueError_collectHeaders, getItem_eq_ok,
    false_or, pure, Except.pure, not_raisesValueError_ok, and_false, exists_false, or_false]
  constructor
  · rintro (hroot | ⟨v, hv, path, hpath, htext | ⟨w, hw, method, hmethod, query, hquery, hascii | ⟨queryString, hdecoded,
      httpVersion, hversion, withServer, hs, hl⟩⟩⟩)
    · exact .inl (.inl hroot)
    · exact .inl (.inr ⟨path, hpath, .inl htext⟩)
    · exact .inl (.inr ⟨path, hpath, .inr ⟨by rw [hmethod]; rfl, query, hquery, hascii⟩⟩)
    · refine .inr ⟨(@withoutHeaders_isOk scope body).1 ⟨setClient withServer scope.client, ?_⟩, hl⟩
      simp only [withoutHeaders, bind_eq_ok, getItem_eq_ok, pure, Except.pure, Except.ok.injEq]
      exact ⟨v, hv, path, hpath, w, hw, method, hmethod, query, hquery, queryString, hdecoded, httpVersion, hversion,
        withServer, hs, rfl⟩
  · intro h
    by_cases hroot : IsText (scope.rootPath.getD [])
    swap
    · exact .inl hroot
    obtain ⟨v, hv⟩ := latin1View_eq_ok.2 hroot
    obtain (hbad | ⟨path, hpath, htext | ⟨hmethod, query, hquery, hascii⟩⟩) | ⟨ht, hl⟩ := h
    · exact absurd hroot hbad
    · exact .inr ⟨v, hv, path, hpath, .inl htext⟩
    · refine .inr ⟨v, hv, path, hpath, ?_⟩
      by_cases htext : IsText path
      · obtain ⟨w, hw⟩ := latin1View_eq_ok.2 htext
        obtain ⟨method, hmethod⟩ := Option.isSome_iff_exists.1 hmethod
        exact .inr ⟨w, hw, method, hmethod, query, hquery, .inl hascii⟩
      · exact .inl htext
    · obtain ⟨base, hbase⟩ := (@withoutHeaders_isOk scope body).2 ht
      simp only [withoutHeaders, bind_eq_ok, getItem_eq_ok, pure, Except.pure, Except.ok.injEq] at hbase
      obtain ⟨v', hv', path, hpath, w, hw, method, hmethod, query, hquery, queryString, hdecoded, httpVersion, hversion,
        withServer, hs, -⟩ := hbase
      exact .inr ⟨v', hv', path, hpath, .inr ⟨w, hw, method, hmethod, query, hquery, .inr ⟨queryString, hdecoded,
        httpVersion, hversion, withServer, hs, hl⟩⟩⟩

end

section

variable {u : Unicode} {r : Request} {app : Environ → List Event × Ending}

/-- The request is refused iff `build_environ` raises a `ValueError`. -/
theorem refused_iff : Refused (r.runWsgiApp u app) ↔
    RaisesValueError (buildEnviron r.duplicateHeaderLimit r.scope r.scope r.body) := by
  unfold Request.runWsgiApp
  cases h : buildEnviron r.duplicateHeaderLimit r.scope r.scope r.body with
  | ok environ => exact iff_of_false (fun ⟨_, hcalled⟩ => nomatch hcalled) (not_raisesValueError_ok _)
  | error e =>
    cases he : e.isValueError with
    | true => exact iff_of_true ⟨by simp [he], by simp [he]⟩ ⟨e, rfl, he⟩
    | false =>
      refine iff_of_false (fun ⟨hsent, _⟩ => ?_) ?_
      · simp [he, badRequest] at hsent
      · rintro ⟨e', h', he'⟩
        cases h'
        rw [he] at he'
        cases he'

theorem not_exceeds_of_off (h : r.duplicateHeaderLimit = none ∨ r.duplicateHeaderLimit = some 0) : ¬ r.Exceeds := by
  refine fun hex => hex fun n hn => ?_
  obtain h | h := h <;> rw [h] at hn <;> cases hn

/-- With a positive limit: some key gets more than so many values. -/
theorem exceeds_iff_of_pos {n : Int} (h : r.duplicateHeaderLimit = some n) (hn : 0 < n) :
    r.Exceeds ↔ ∃ key, n < (fieldCount key r.headers : Int) := by
  have hactive : activeLimit r.duplicateHeaderLimit = some n := by
    rw [h]
    exact if_neg (by omega)
  unfold Request.Exceeds WithinLimit
  simp only [hactive, Option.some.injEq, forall_eq', not_forall, Int.not_le]
  constructor
  · rintro ⟨g, -, hlt⟩
    exact ⟨_, hlt⟩
  · rintro ⟨key, hlt⟩
    have hpos : 0 < fieldCount key r.headers := by omega
    obtain ⟨g, hg, hkey⟩ := List.countP_pos_iff.1 hpos
    have hkey : correctedName g.1 = key := of_decide_eq_true hkey
    exact ⟨g, hg, by rw [hkey]; exact hlt⟩

end

/-- A request without headers whose query string has a byte that is not ASCII. -/
def queryRequest : Request where
  duplicateHeaderLimit := some 100
  scope := { sampleScope none with queryString := some [0xE9], headers := none }
  body := 0

end Asgiref.Wsgi
