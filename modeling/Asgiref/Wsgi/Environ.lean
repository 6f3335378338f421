import Asgiref.Lib.Dict
import Asgiref.Python.Codec

/-!
# `WsgiToAsgiInstance.build_environ`

* `Scope`, `Environ` — an HTTP scope, where every key may be missing, and the dictionary WSGI calls the environ;
* `collectHeaders` — the loop over the headers (`isOk_collectHeaders_iff`: when it ends without an exception);
* `buildEnviron` — the method, with its inversion lemma `buildEnviron_eq_ok`;
* `Conforms`, `Translated` — what the specification says of a scope, and what a WSGI application needs;
* `translated_iff` — the scopes that are translated.
-/

namespace Asgiref.Wsgi

open Asgiref.Python Asgiref.Lib

/-- The keys of an HTTP scope that `build_environ` reads; `none` where the key is missing.  The server can also be
`None`, a host with a port, or the path of a socket with `None`. -/
structure Scope where
  method : Option Str
  path : Option Str
  rootPath : Option Str
  queryString : Option Bytes
  httpVersion : Option Str
  scheme : Option Str
  server : Option (Option (Str × Option Int))
  client : Option (Option (Str × Int))
  headers : Option (List (Bytes × Bytes))
  deriving DecidableEq

/-- The values of an environ. -/
inductive Value where
  | str (s : Str)
  | version (major minor : Nat)
  | bool (b : Bool)
  /-- The file with the body of the request. -/
  | input (body : Nat)
  /-- `sys.stderr` -/
  | stderr
  deriving DecidableEq

abbrev Environ := Dict Str Value

/-- `_headers` -/
abbrev Headers := Dict Str (List Str)

/-- `scope[key]` -/
def getItem {α : Type} : Option α → Result α
  | some v => .ok v
  | none => .error .keyError

/-- `s.encode("utf8").decode("latin1")` -/
def latin1View (s : Str) : Result Str := (encodeUtf8 s).map decodeLatin1

/-- `if path_info.startswith(script_name): path_info = path_info[len(script_name):]` -/
def stripScriptName (scriptName pathInfo : Str) : Str :=
  if scriptName.isPrefixOf pathInfo then pathInfo.drop scriptName.length else pathInfo

/-- The dictionary that `build_environ` starts with. -/
def baseEnviron (method scriptName pathInfo queryString httpVersion scheme : Str) (body : Nat) : Environ :=
  ⟨[⟨str "REQUEST_METHOD", .str method⟩,
    ⟨str "SCRIPT_NAME", .str scriptName⟩,
    ⟨str "PATH_INFO", .str pathInfo⟩,
    ⟨str "QUERY_STRING", .str queryString⟩,
    ⟨str "SERVER_PROTOCOL", .str (str "HTTP/" ++ httpVersion)⟩,
    ⟨str "wsgi.version", .version 1 0⟩,
    ⟨str "wsgi.url_scheme", .str scheme⟩,
    ⟨str "wsgi.input", .input body⟩,
    ⟨str "wsgi.errors", .stderr⟩,
    ⟨str "wsgi.multithread", .bool true⟩,
    ⟨str "wsgi.multiprocess", .bool true⟩,
    ⟨str "wsgi.run_once", .bool false⟩], by
    show [str "REQUEST_METHOD", str "SCRIPT_NAME", str "PATH_INFO", str "QUERY_STRING", str "SERVER_PROTOCOL",
      str "wsgi.version", str "wsgi.url_scheme", str "wsgi.input", str "wsgi.errors", str "wsgi.multithread",
      str "wsgi.multiprocess", str "wsgi.run_once"].Nodup
    decide⟩

/-- `str(scope["server"][1])` -/
def strPort : Option Int → Str
  | some n => strInt n
  | none => str "None"

/-- `if "server" in scope: … else: …` -/
def setServer (environ : Environ) : Option (Option (Str × Option Int)) → Result Environ
  | some (some (host, port)) =>
    .ok ((environ.set (str "SERVER_NAME") (.str host)).set (str "SERVER_PORT") (.str (strPort port)))
  | some none => .error (.typeError "'NoneType' object is not subscriptable")
  | none => .ok ((environ.set (str "SERVER_NAME") (.str (str "localhost"))).set (str "SERVER_PORT") (.str (str "80")))

/-- `if scope.get("client") is not None: …` -/
def setClient (environ : Environ) : Option (Option (Str × Int)) → Environ
  | some (some (host, _)) => environ.set (str "REMOTE_ADDR") (.str host)
  | _ => environ

/-- `corrected_name` -/
def correctedName (name : Bytes) : Str :=
  if decodeLatin1 name = str "content-length" then str "CONTENT_LENGTH"
  else if decodeLatin1 name = str "content-type" then str "CONTENT_TYPE"
  else str "HTTP_" ++ replace (ord '-') (ord '_') (upper (decodeLatin1 name))

/-- The duplicate limit, where `self.duplicate_header_limit` is true. -/
def activeLimit : Option Int → Option Int
  | some n => if n = 0 then none else some n
  | none => none

/-- `self.duplicate_header_limit and len(_headers[corrected_name]) >= self.duplicate_header_limit` -/
def atLimit (limit : Option Int) (count : Nat) : Bool :=
  match activeLimit limit with
  | some n => decide (n ≤ count)
  | none => false

/-- The message of the `ValueError`. -/
def tooMany (correctedName : Str) (limit : Option Int) : String :=
  "Too many duplicate headers: " ++ text correctedName ++ " exceeds limit of" ++
    (match limit with
      | some n => toString n
      | none => "None")

/-- `for name, value in self.scope.get("headers", []): …` -/
def collectHeaders (limit : Option Int) (_headers : Headers) : List (Bytes × Bytes) → Result Headers
  | [] => .ok _headers
  | (name, value) :: l =>
    if atLimit limit (_headers.getList (correctedName name)).length then
      .error (.valueError (tooMany (correctedName name) limit))
    else collectHeaders limit (_headers.push (correctedName name) (decodeLatin1 value)) l

/-- `",".join(values)` -/
def join (values : List Str) : Str := [ord ','].intercalate values

/-- `build_environ(scope, body)`.  The headers are those of `self.scope`. -/
def buildEnviron (limit : Option Int) (selfScope scope : Scope) (body : Nat) : Result Environ := do
  let scriptName ← latin1View (scope.rootPath.getD [])
  let path ← getItem scope.path
  let pathInfo ← latin1View path
  let method ← getItem scope.method
  let query ← getItem scope.queryString
  let queryString ← decodeAscii query
  let httpVersion ← getItem scope.httpVersion
  let environ := baseEnviron method scriptName (stripScriptName scriptName pathInfo) queryString httpVersion
    (scope.scheme.getD (str "http")) body
  let environ ← setServer environ scope.server
  let headers ← collectHeaders limit ∅ (selfScope.headers.getD [])
  pure (headers.assignAll (fun values => .str (join values)) (setClient environ scope.client))

/-! ### The headers -/

/-- How many fields are kept under the key. -/
def fieldCount (key : Str) (l : List (Bytes × Bytes)) : Nat := l.countP fun h => correctedName h.1 = key

/-- No key gets more values than the limit says. -/
def WithinLimit (limit : Option Int) (l : List (Bytes × Bytes)) : Prop :=
  ∀ n, activeLimit limit = some n → ∀ h ∈ l, (fieldCount (correctedName h.1) l : Int) ≤ n

/-- A key that a header field can have. -/
def isHeaderKey (key : Str) : Bool :=
  key = str "CONTENT_LENGTH" || key = str "CONTENT_TYPE" || (str "HTTP_").isPrefixOf key

section

variable {limit : Option Int} {_headers headers : Headers} {l : List (Bytes × Bytes)}

theorem fieldCount_cons (key : Str) (name value : Bytes) (l : List (Bytes × Bytes)) :
    fieldCount key ((name, value) :: l) = fieldCount key l + if correctedName name = key then 1 else 0 := by
  unfold fieldCount
  rw [List.countP_cons]
  simp

theorem fieldCount_eq_zero {key : Str} (h : ∀ g ∈ l, correctedName g.1 ≠ key) : fieldCount key l = 0 :=
  List.countP_eq_zero.2 fun g hg => by simpa using h g hg

theorem atLimit_eq_false {count : Nat} :
    atLimit limit count = false ↔ ∀ n, activeLimit limit = some n → (count : Int) < n := by
  unfold atLimit
  cases activeLimit limit with
  | none => simp
  | some n => simp

/-- The loop over the headers ends without an exception iff no key gets more values than the limit says. -/
theorem collectHeaders_eq_ok : (∃ headers, collectHeaders limit _headers l = .ok headers) ↔
    ∀ n, activeLimit limit = some n → ∀ h ∈ l,
      ((_headers.getList (correctedName h.1)).length : Int) + fieldCount (correctedName h.1) l ≤ n := by
  induction l generalizing _headers with
  | nil => exact ⟨fun _ _ _ => by simp, fun _ => ⟨_headers, rfl⟩⟩
  | cons h₀ l ih =>
    obtain ⟨name, value⟩ := h₀
    have hlen : ∀ key, ((_headers.push (correctedName name) (decodeLatin1 value)).getList key).length =
        (_headers.getList key).length + if correctedName name = key then 1 else 0 := by
      intro key
      rw [Dict.getList_push]
      by_cases hkey : key = correctedName name
      · subst hkey
        simp
      · rw [if_neg hkey, if_neg (Ne.symm hkey)]
        rfl
    unfold collectHeaders
    cases hat : atLimit limit (_headers.getList (correctedName name)).length with
    | true =>
      rw [if_pos rfl]
      refine ⟨fun ⟨_, h⟩ => (nomatch h), fun hall => ?_⟩
      refine absurd (atLimit_eq_false.2 fun n hn => ?_) (ne_false_of_eq_true hat)
      have hname : ((_headers.getList (correctedName name)).length : Int) +
          fieldCount (correctedName name) ((name, value) :: l) ≤ n :=
        hall n hn (name, value) List.mem_cons_self
      rw [fieldCount_cons, if_pos rfl] at hname
      omega
    | false =>
      rw [if_neg Bool.false_ne_true, ih]
      have hlt := atLimit_eq_false.1 hat
      constructor
      · intro hall n hn h hh
        rw [fieldCount_cons]
        obtain rfl | hh := List.mem_cons.1 hh
        · -- The field itself: either another one has its key, or it is the last one.
          rw [if_pos rfl]
          show ((_headers.getList (correctedName name)).length : Int) +
            (fieldCount (correctedName name) l + 1 : Nat) ≤ n
          by_cases hex : ∃ g ∈ l, correctedName g.1 = correctedName name
          · obtain ⟨g, hg, hkey⟩ := hex
            have hle := hall n hn g hg
            rw [hlen, hkey, if_pos rfl] at hle
            omega
          · have hzero := fieldCount_eq_zero (l := l) fun g hg hkey => hex ⟨g, hg, hkey⟩
            have hltn := hlt n hn
            omega
        · have hle := hall n hn h hh
          rw [hlen] at hle
          omega
      · intro hall n hn h hh
        have hle := hall n hn h (List.mem_cons_of_mem _ hh)
        rw [fieldCount_cons] at hle
        rw [hlen]
        omega

theorem collectHeaders_empty_eq_ok : (∃ headers, collectHeaders limit ∅ l = .ok headers) ↔ WithinLimit limit l := by
  rw [collectHeaders_eq_ok]
  simp [WithinLimit]

theorem isHeaderKey_correctedName (name : Bytes) : isHeaderKey (correctedName name) = true := by
  unfold correctedName isHeaderKey
  by_cases hlength : decodeLatin1 name = str "content-length"
  · rw [if_pos hlength]
    decide
  · by_cases htype : decodeLatin1 name = str "content-type"
    · rw [if_neg hlength, if_pos htype]
      decide
    · rw [if_neg hlength, if_neg htype]
      simp

theorem isHeaderKey_of_mem (h : collectHeaders limit _headers l = .ok headers)
    (hkeys : ∀ key ∈ _headers, isHeaderKey key = true) {key : Str} (hkey : key ∈ headers) : isHeaderKey key = true := by
  induction l generalizing _headers with
  | nil =>
    cases h
    exact hkeys key hkey
  | cons h₀ l ih =>
    obtain ⟨name, value⟩ := h₀
    unfold collectHeaders at h
    split at h
    · cases h
    · refine ih h fun k hk => ?_
      obtain rfl | hk := Dict.mem_push.1 hk
      · exact isHeaderKey_correctedName name
      · exact hkeys k hk

/-- No header field changes an entry that is not one of a header. -/
theorem lookup_assignAll_headers (h : collectHeaders limit ∅ l = .ok headers) {key : Str}
    (hkey : isHeaderKey key = false) (environ : Environ) :
    (headers.assignAll (fun values => .str (join values)) environ).lookup key = environ.lookup key := by
  refine Dict.lookup_assignAll_of_notMem (fun hmem => ?_) _ _
  rw [isHeaderKey_of_mem h (fun k hk => by simp at hk) hmem] at hkey
  cases hkey

end

/-! ### The server and the client -/

section

variable {environ environ' : Environ}

theorem lookup_setClient {key : Str} (hkey : key ≠ str "REMOTE_ADDR") (environ : Environ)
    (client : Option (Option (Str × Int))) : (setClient environ client).lookup key = environ.lookup key := by
  unfold setClient
  split
  · exact Dict.lookup_set_ne hkey _ _
  · rfl

theorem lookup_setServer {server : Option (Option (Str × Option Int))} (h : setServer environ server = .ok environ')
    {key : Str} (hname : key ≠ str "SERVER_NAME") (hport : key ≠ str "SERVER_PORT") :
    environ'.lookup key = environ.lookup key := by
  unfold setServer at h
  split at h
  · cases h
    rw [Dict.lookup_set_ne hport, Dict.lookup_set_ne hname]
  · cases h
  · cases h
    rw [Dict.lookup_set_ne hport, Dict.lookup_set_ne hname]

/-- The server's name and port, where the server is missing or has two items. -/
theorem lookup_server {server : Option (Option (Str × Option Int))} (h : setServer environ server = .ok environ') :
    ∃ host port, environ'.lookup (str "SERVER_NAME") = some (.str host) ∧
      environ'.lookup (str "SERVER_PORT") = some (.str port) ∧
      (server = none ∧ port = str "80" ∨ ∃ p, server = some (some (host, p)) ∧ port = strPort p) := by
  have hne : str "SERVER_NAME" ≠ str "SERVER_PORT" := by decide
  unfold setServer at h
  split at h
  · next host p =>
    cases h
    refine ⟨host, strPort p, ?_, Dict.lookup_set_self _ _ _, Or.inr ⟨p, rfl, rfl⟩⟩
    rw [Dict.lookup_set_ne hne, Dict.lookup_set_self]
  · cases h
  · cases h
    refine ⟨str "localhost", str "80", ?_, Dict.lookup_set_self _ _ _, Or.inl ⟨rfl, rfl⟩⟩
    rw [Dict.lookup_set_ne hne, Dict.lookup_set_self]

end

/-! ### The method as a whole -/

section

variable {limit : Option Int} {selfScope scope : Scope} {body : Nat} {environ : Environ}

theorem getItem_eq_ok {α : Type} {o : Option α} {a : α} : getItem o = .ok a ↔ o = some a := by
  cases o with
  | none => exact ⟨nofun, nofun⟩
  | some b => simp [getItem]

/-- The calls that have to succeed, in their order, and the environ they lead to. -/
theorem buildEnviron_eq_ok : buildEnviron limit selfScope scope body = .ok environ ↔
    ∃ scriptName, latin1View (scope.rootPath.getD []) = .ok scriptName ∧
    ∃ path, scope.path = some path ∧
    ∃ pathInfo, latin1View path = .ok pathInfo ∧
    ∃ method, scope.method = some method ∧
    ∃ query, scope.queryString = some query ∧
    ∃ queryString, decodeAscii query = .ok queryString ∧
    ∃ httpVersion, scope.httpVersion = some httpVersion ∧
    ∃ withServer, setServer (baseEnviron method scriptName (stripScriptName scriptName pathInfo) queryString httpVersion
      (scope.scheme.getD (str "http")) body) scope.server = .ok withServer ∧
    ∃ headers, collectHeaders limit ∅ (selfScope.headers.getD []) = .ok headers ∧
      headers.assignAll (fun values => .str (join values)) (setClient withServer scope.client) = environ := by
  unfold buildEnviron
  simp only [bind_eq_ok, getItem_eq_ok, pure, Except.pure, Except.ok.injEq]

theorem latin1View_eq_ok {s : Str} : (∃ v, latin1View s = .ok v) ↔ IsText s := by
  rw [← encodeUtf8_eq_ok]
  unfold latin1View
  cases encodeUtf8 s with
  | ok b => exact ⟨fun _ => ⟨b, rfl⟩, fun _ => ⟨decodeLatin1 b, rfl⟩⟩
  | error e => exact ⟨fun ⟨_, h⟩ => (nomatch h), fun ⟨_, h⟩ => (nomatch h)⟩

end

/-! ### The scopes of the specification -/

/-- A scope as the specification describes it, with a header list within the duplicate limit: `root_path`, `scheme`,
`server` and `client` are optional, what is there has its type, the path is the decoding of UTF-8 and the query string
ASCII. -/
structure Conforms (limit : Option Int) (scope : Scope) : Prop where
  method : scope.method.isSome
  path : ∃ path, scope.path = some path ∧ IsText path
  queryString : ∃ query, scope.queryString = some query ∧ ∀ b ∈ query, b.toNat < 128
  httpVersion : scope.httpVersion.isSome
  headers : WithinLimit limit (scope.headers.getD [])

/-- The keys that WSGI requires to be strings. -/
def requiredKeys : List Str :=
  [str "REQUEST_METHOD", str "SCRIPT_NAME", str "PATH_INFO", str "QUERY_STRING", str "SERVER_PROTOCOL",
    str "SERVER_NAME", str "SERVER_PORT"]

/-- The scope is translated: `build_environ` returns, and the environ has its strings and a decimal port. -/
def Translated (r : Result Environ) : Prop :=
  ∃ environ, r = .ok environ ∧ (∀ key ∈ requiredKeys, ∃ s, environ.lookup key = some (.str s)) ∧
    ∃ port, environ.lookup (str "SERVER_PORT") = some (.str port) ∧ IsDecimal port

/-- The server is missing, or a host with a port. -/
def ServerHasPort (scope : Scope) : Prop :=
  scope.server = none ∨ ∃ host port, scope.server = some (some (host, some port))

section

variable {limit : Option Int} {scope : Scope} {body : Nat} {environ : Environ}

theorem lookup_baseEnviron {method scriptName pathInfo queryString httpVersion scheme : Str} {key : Str}
    (hkey : key ∈ requiredKeys) (hname : key ≠ str "SERVER_NAME") (hport : key ≠ str "SERVER_PORT") :
    ∃ s, (baseEnviron method scriptName pathInfo queryString httpVersion scheme body).lookup key = some (.str s) := by
  simp only [requiredKeys, List.mem_cons, List.not_mem_nil, or_false] at hkey
  obtain rfl | rfl | rfl | rfl | rfl | rfl | rfl := hkey
  · exact ⟨_, rfl⟩
  · exact ⟨_, rfl⟩
  · exact ⟨_, rfl⟩
  · exact ⟨_, rfl⟩
  · exact ⟨_, rfl⟩
  · exact absurd rfl hname
  · exact absurd rfl hport

theorem not_isDecimal_none : ¬ IsDecimal (str "None") := by
  rintro ⟨ds, -, hds, rfl | h⟩
  · exact absurd (hds (ord 'N') (by decide)).2 (by decide)
  · exact absurd (List.cons.inj h).1 (by decide)

theorem isDecimal_eighty : IsDecimal (str "80") := isDecimal_strInt 80

/-- The entries that do not come from the headers, the server's aside. -/
theorem lookup_required {headers : Headers} {client : Option (Option (Str × Int))} {l : List (Bytes × Bytes)}
    (hl : collectHeaders limit ∅ l = .ok headers) {key : Str} (hkey : key ∈ requiredKeys) :
    (headers.assignAll (fun values => .str (join values)) (setClient environ client)).lookup key =
      environ.lookup key := by
  have hnot : ∀ key ∈ requiredKeys, isHeaderKey key = false ∧ key ≠ str "REMOTE_ADDR" := by decide
  rw [lookup_assignAll_headers hl (hnot key hkey).1, lookup_setClient (hnot key hkey).2]

theorem serverHasPort_of_translated (h : Translated (buildEnviron limit scope scope body)) : ServerHasPort scope := by
  obtain ⟨environ, hb, -, port, hport, hdec⟩ := h
  obtain ⟨scriptName, -, path, -, pathInfo, -, method, -, query, -, queryString, -, httpVersion, -, withServer, hs,
    headers, hl, rfl⟩ := buildEnviron_eq_ok.1 hb
  rw [lookup_required hl (by decide)] at hport
  obtain ⟨host, port', -, hport', ⟨hnone, -⟩ | ⟨p, hsome, rfl⟩⟩ := lookup_server hs
  · exact Or.inl hnone
  · cases p with
    | some n => exact Or.inr ⟨host, n, hsome⟩
    | none =>
      cases hport.symm.trans hport'
      exact absurd hdec not_isDecimal_none

theorem isText_of_translated (h : Translated (buildEnviron limit scope scope body)) :
    IsText (scope.rootPath.getD []) := by
  obtain ⟨environ, hb, -⟩ := h
  obtain ⟨scriptName, hview, -⟩ := buildEnviron_eq_ok.1 hb
  exact latin1View_eq_ok.1 ⟨scriptName, hview⟩

theorem setServer_of_serverHasPort (h : ServerHasPort scope) (environ : Environ) :
    ∃ withServer, setServer environ scope.server = .ok withServer := by
  obtain h | ⟨host, port, h⟩ := h
  · rw [h]
    exact ⟨_, rfl⟩
  · rw [h]
    exact ⟨_, rfl⟩

/-- With `None` for the server the method raises. -/
theorem buildEnviron_server_none {selfScope : Scope} (hc : Conforms limit scope) (hroot : IsText (scope.rootPath.getD []))
    (hserver : scope.server = some none) :
    buildEnviron limit selfScope scope body = .error (.typeError "'NoneType' object is not subscriptable") := by
  obtain ⟨scriptName, hscript⟩ := latin1View_eq_ok.2 hroot
  obtain ⟨path, hpath, htext⟩ := hc.path
  obtain ⟨pathInfo, hinfo⟩ := latin1View_eq_ok.2 htext
  obtain ⟨method, hmethod⟩ := Option.isSome_iff_exists.1 hc.method
  obtain ⟨query, hquery, hascii⟩ := hc.queryString
  obtain ⟨httpVersion, hversion⟩ := Option.isSome_iff_exists.1 hc.httpVersion
  simp only [buildEnviron, hscript, hpath, hinfo, hmethod, hquery, hversion, hserver, decodeAscii_of_lt hascii, getItem,
    setServer, bind, Except.bind]

theorem translated_of_serverHasPort (hc : Conforms limit scope) (hserver : ServerHasPort scope)
    (hroot : IsText (scope.rootPath.getD [])) : Translated (buildEnviron limit scope scope body) := by
  obtain ⟨scriptName, hscript⟩ := latin1View_eq_ok.2 hroot
  obtain ⟨path, hpath, htext⟩ := hc.path
  obtain ⟨pathInfo, hinfo⟩ := latin1View_eq_ok.2 htext
  obtain ⟨method, hmethod⟩ := Option.isSome_iff_exists.1 hc.method
  obtain ⟨query, hquery, hascii⟩ := hc.queryString
  obtain ⟨httpVersion, hversion⟩ := Option.isSome_iff_exists.1 hc.httpVersion
  obtain ⟨headers, hl⟩ := collectHeaders_empty_eq_ok.2 hc.headers
  obtain ⟨withServer, hs⟩ := setServer_of_serverHasPort hserver (baseEnviron method scriptName
    (stripScriptName scriptName pathInfo) (decodeLatin1 query) httpVersion (scope.scheme.getD (str "http")) body)
  obtain ⟨host, port, hhost, hport, hcases⟩ := lookup_server hs
  have hbuilt := buildEnviron_eq_ok.2 ⟨scriptName, hscript, path, hpath, pathInfo, hinfo, method, hmethod, query, hquery,
    decodeLatin1 query, decodeAscii_of_lt hascii, httpVersion, hversion, withServer, hs, headers, hl, rfl⟩
  refine ⟨_, hbuilt, ?_, port, ?_, ?_⟩
  · intro key hkey
    rw [lookup_required hl hkey]
    by_cases hname : key = str "SERVER_NAME"
    · exact ⟨host, hname ▸ hhost⟩
    · by_cases hnum : key = str "SERVER_PORT"
      · exact ⟨port, hnum ▸ hport⟩
      · rw [lookup_setServer hs hname hnum]
        exact lookup_baseEnviron hkey hname hnum
  · rw [lookup_required hl (by decide)]
    exact hport
  · obtain ⟨-, rfl⟩ | ⟨p, hp, rfl⟩ := hcases
    · exact isDecimal_eighty
    · obtain hnone | ⟨host', n, hsome⟩ := hserver
      · rw [hnone] at hp
        cases hp
      · cases hp.symm.trans hsome
        exact isDecimal_strInt n

end

/-- **The scopes that are translated.**  `build_environ` translates a scope of the specification iff its server is
missing or has a port, and its `root_path` can be encoded. -/
theorem translated_iff {limit : Option Int} {scope : Scope} (hc : Conforms limit scope) (body : Nat) :
    Translated (buildEnviron limit scope scope body) ↔
      ServerHasPort scope ∧ IsText (scope.rootPath.getD []) :=
  ⟨fun h => ⟨serverHasPort_of_translated h, isText_of_translated h⟩, fun h => translated_of_serverHasPort hc h.1 h.2⟩

/-- A request with a repeated header. -/
def sampleScope (server : Option (Option (Str × Option Int))) : Scope where
  method := some (str "GET")
  path := some (str "/base/foo/")
  rootPath := some (str "/base")
  queryString := some [98, 97, 114]
  httpVersion := some (str "1.1")
  scheme := none
  server := server
  client := some none
  headers := some [([97], [49]), ([97], [50])]

theorem conforms_sampleScope (server : Option (Option (Str × Option Int))) :
    Conforms (some 100) (sampleScope server) where
  method := rfl
  path := ⟨str "/base/foo/", rfl, by decide⟩
  queryString := ⟨[98, 97, 114], rfl, by simp⟩
  httpVersion := rfl
  headers n hn h hh := by
    have h100 : 100 = n := Option.some.inj hn
    have hle : (fieldCount (correctedName h.1) [([97], [49]), ([97], [50])] : Int) ≤ 2 := by
      exact_mod_cast List.countP_le_length
    show (fieldCount (correctedName h.1) [([97], [49]), ([97], [50])] : Int) ≤ n
    omega

theorem translated_sampleScope : Translated (buildEnviron (some 100) (sampleScope (some (some (str "::1", some 8000))))
    (sampleScope (some (some (str "::1", some 8000)))) 0) :=
  (translated_iff (conforms_sampleScope _) 0).2 ⟨Or.inr ⟨str "::1", 8000, rfl⟩, by decide⟩

/-- **Scopes of the specification that are not translated.**  With `None` for the server `build_environ` raises, and
with a unix socket the port is `"None"`. -/
theorem not_translated :
    Conforms (some 100) (sampleScope (some none)) ∧
      buildEnviron (some 100) (sampleScope (some none)) (sampleScope (some none)) 0 =
        .error (.typeError "'NoneType' object is not subscriptable") ∧
      Conforms (some 100) (sampleScope (some (some (str "/run/app.sock", none)))) ∧
      ¬ Translated (buildEnviron (some 100) (sampleScope (some (some (str "/run/app.sock", none))))
        (sampleScope (some (some (str "/run/app.sock", none)))) 0) := by
  refine ⟨conforms_sampleScope _, buildEnviron_server_none (conforms_sampleScope _) (by decide) rfl,
    conforms_sampleScope _, fun h => ?_⟩
  obtain h | ⟨host, port, h⟩ := serverHasPort_of_translated h
  · cases h
  · cases h

end Asgiref.Wsgi
