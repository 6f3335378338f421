import Asgiref.Lib.Joined
import Asgiref.Python.Utf8
import Asgiref.Wsgi.Environ

/-!
# The entries of the headers

* `lowerName`, `cgiName` — names up to ASCII case, and up to what the mapping of CGI leaves of them;
* `environOf` — the environ of a scope with a header list (`environOf_isOk`: when there is one);
* `lookup_header` — the entry under a key joins the values of all fields that have the key;
* `lookup_not_header` — an entry that is not one of a header is the same with any header list.
-/

namespace Asgiref.Wsgi

open Asgiref.Python Asgiref.Lib

/-- `x.lower()` for an ASCII letter. -/
def lowerByte (x : UInt8) : UInt8 := if 65 ≤ x.toNat ∧ x.toNat ≤ 90 then UInt8.ofNat (x.toNat + 32) else x

/-- The name in lower case, as far as ASCII goes. -/
def lowerName (name : Bytes) : Bytes := name.map lowerByte

/-- `name.upper().replace("-", "_")` -/
def cgiName (name : Bytes) : Str := replace (ord '-') (ord '_') (upper (decodeLatin1 name))

/-- The key under which an application looks for a header. -/
def readKey (name : Bytes) : Str := correctedName (lowerName name)

/-- The values of the fields whose names are in question. -/
def valuesOf (p : Bytes → Bool) (l : List (Bytes × Bytes)) : List Str :=
  (l.filter fun h => p h.1).map fun h => decodeLatin1 h.2

/-- The environ of the scope with the header list. -/
def environOf (limit : Option Int) (scope : Scope) (l : List (Bytes × Bytes)) (body : Nat) : Result Environ :=
  buildEnviron limit { scope with headers := some l } { scope with headers := some l } body

/-- `build_environ` without its last part, the headers. -/
def withoutHeaders (scope : Scope) (body : Nat) : Result Environ := do
  let scriptName ← latin1View (scope.rootPath.getD [])
  let path ← getItem scope.path
  let pathInfo ← latin1View path
  let method ← getItem scope.method
  let query ← getItem scope.queryString
  let queryString ← decodeAscii query
  let httpVersion ← getItem scope.httpVersion
  let environ ← setServer (baseEnviron method scriptName (stripScriptName scriptName pathInfo) queryString httpVersion
    (scope.scheme.getD (str "http")) body) scope.server
  pure (setClient environ scope.client)

/-- What a scope needs besides its headers. -/
structure Translatable (scope : Scope) : Prop where
  rootPath : IsText (scope.rootPath.getD [])
  path : ∃ path, scope.path = some path ∧ IsText path
  method : scope.method.isSome
  queryString : ∃ query, scope.queryString = some query ∧ ∀ b ∈ query, b.toNat < 128
  httpVersion : scope.httpVersion.isSome
  server : scope.server ≠ some none

/-! ### Names -/

section

theorem lowerByte_cases (x : UInt8) : lowerByte x = x ∧ ¬ (65 ≤ x.toNat ∧ x.toNat ≤ 90) ∨
    (65 ≤ x.toNat ∧ x.toNat ≤ 90) ∧ (lowerByte x).toNat = x.toNat + 32 := by
  unfold lowerByte
  by_cases h : 65 ≤ x.toNat ∧ x.toNat ≤ 90
  · rw [if_pos h]
    refine .inr ⟨h, ?_⟩
    rw [UInt8.toNat_ofNat']
    exact Nat.mod_eq_of_lt (by omega)
  · rw [if_neg h]
    exact .inl ⟨rfl, h⟩

/-- A name in lower case stays as it is. -/
theorem lowerName_lowerName (name : Bytes) : lowerName (lowerName name) = lowerName name := by
  unfold lowerName
  rw [List.map_map]
  refine List.map_congr_left fun x _ => ?_
  obtain ⟨h, -⟩ | ⟨h, hval⟩ := lowerByte_cases x
  · simp only [Function.comp_apply, h]
  · obtain ⟨h', -⟩ | ⟨h', -⟩ := lowerByte_cases (lowerByte x)
    · exact h'
    · omega

theorem upper_lowerName (name : Bytes) : upper (decodeLatin1 (lowerName name)) = upper (decodeLatin1 name) := by
  unfold upper decodeLatin1 lowerName
  rw [List.map_map, List.flatMap_map, List.flatMap_map]
  refine List.flatMap_congr fun x _ => ?_
  obtain ⟨h, -⟩ | ⟨h, hval⟩ := lowerByte_cases x
  · simp only [Function.comp_apply, h]
  · simp only [Function.comp_apply, upperLatin1, hval]
    rw [if_pos (by omega), if_neg (by omega), if_neg (by omega), if_neg (by omega), if_neg (by omega)]
    exact congrArg (fun c => [c]) (Fin.ext (Nat.add_sub_cancel ..))

theorem cgiName_lowerName (name : Bytes) : cgiName (lowerName name) = cgiName name := by
  unfold cgiName
  rw [upper_lowerName]

theorem cgiName_of_lowerName_eq {m n : Bytes} (h : lowerName m = lowerName n) : cgiName m = cgiName n := by
  rw [← cgiName_lowerName m, h, cgiName_lowerName]

/-- The name is that of one of the two headers that have a key of their own. -/
def isSpecial (name : Bytes) : Bool := decodeLatin1 name = str "content-length" || decodeLatin1 name = str "content-type"

theorem correctedName_of_not_special {name : Bytes} (h : isSpecial name = false) :
    correctedName name = str "HTTP_" ++ cgiName name := by
  simp only [isSpecial, Bool.or_eq_false_iff, decide_eq_false_iff_not] at h
  rw [correctedName, if_neg h.1, if_neg h.2, cgiName]

theorem prefix_correctedName (name : Bytes) : (str "HTTP_").isPrefixOf (correctedName name) = !isSpecial name := by
  unfold correctedName isSpecial
  by_cases hlength : decodeLatin1 name = str "content-length"
  · rw [if_pos hlength, hlength]
    rfl
  · by_cases htype : decodeLatin1 name = str "content-type"
    · rw [if_neg hlength, if_pos htype, htype]
      rfl
    · rw [if_neg hlength, if_neg htype, decide_eq_false hlength, decide_eq_false htype]
      exact List.isPrefixOf_iff_prefix.2 (List.prefix_append ..)

/-- The key that `content-length` has, and no other name. -/
theorem correctedName_eq_contentLength {name : Bytes} :
    correctedName name = str "CONTENT_LENGTH" ↔ decodeLatin1 name = str "content-length" := by
  unfold correctedName
  refine ⟨fun h => ?_, fun h => if_pos h⟩
  split at h
  · assumption
  · split at h
    · exact absurd h (by decide)
    · exact absurd (List.cons.inj h).1 (by decide)

theorem correctedName_eq_contentType {name : Bytes} :
    correctedName name = str "CONTENT_TYPE" ↔ decodeLatin1 name = str "content-type" := by
  unfold correctedName
  constructor
  · intro h
    split at h
    · exact absurd h (by decide)
    · split at h
      · assumption
      · exact absurd (List.cons.inj h).1 (by decide)
  · intro h
    rw [if_neg (by rw [h]; decide), if_pos h]

/-- The keys of the two headers are not keys of others. -/
theorem isSpecial_of_correctedName {m n : Bytes} (h : correctedName m = correctedName n) : isSpecial m = isSpecial n := by
  have hbegins := prefix_correctedName m
  rw [h, prefix_correctedName n] at hbegins
  exact Bool.not_inj hbegins.symm

/-- Only one name has the key of such a header. -/
theorem eq_of_correctedName_special {m n : Bytes} (h : correctedName m = correctedName n) (hn : isSpecial n = true) :
    m = n := by
  have hm := (isSpecial_of_correctedName h).trans hn
  simp only [isSpecial, Bool.or_eq_true, decide_eq_true_eq] at hm hn
  refine decodeLatin1_injective ?_
  unfold correctedName at h
  obtain hm | hm := hm <;> obtain hn | hn := hn <;> rw [hm, hn] at h ⊢ <;> exact absurd h (by decide)

theorem cgiName_of_correctedName {m n : Bytes} (h : correctedName m = correctedName n) : cgiName m = cgiName n := by
  cases hn : isSpecial n with
  | true => rw [eq_of_correctedName_special h hn]
  | false =>
    have hm := (isSpecial_of_correctedName h).trans hn
    rw [correctedName_of_not_special hn, correctedName_of_not_special hm] at h
    exact List.append_cancel_left h

/-- The two names are in lower case. -/
theorem lowerName_of_isSpecial {name : Bytes} (h : isSpecial name = true) : lowerName name = name := by
  have hback := encodeLatin1_decodeLatin1 name
  simp only [isSpecial, Bool.or_eq_true, decide_eq_true_eq] at h
  obtain h | h := h
  · rw [h] at hback
    cases hback
    rfl
  · rw [h] at hback
    cases hback
    rfl

theorem not_isSpecial_of_lowerName {name : Bytes} (h : isSpecial (lowerName name) = false) : isSpecial name = false := by
  cases hs : isSpecial name with
  | false => rfl
  | true =>
    rw [lowerName_of_isSpecial hs, hs] at h
    cases h

end

/-! ### The table of the headers -/

section

variable {limit : Option Int} {_headers headers : Headers} {l : List (Bytes × Bytes)}

theorem valuesOf_cons (p : Bytes → Bool) (name value : Bytes) (l : List (Bytes × Bytes)) :
    valuesOf p ((name, value) :: l) = if p name = true then decodeLatin1 value :: valuesOf p l else valuesOf p l := by
  unfold valuesOf
  rw [List.filter_cons]
  split <;> rfl

/-- One entry holds the values of another iff it is made of the same fields, where the names of one are among those of the
other. -/
theorem entry_inj {sep : Str} (hsep : sep ≠ []) {p q : Bytes → Bool} (h : ∀ name, p name = true → q name = true)
    (l : List (Bytes × Bytes)) :
    (joined sep (valuesOf p l)).map Value.str = (joined sep (valuesOf q l)).map Value.str ↔
      ∀ h ∈ l, q h.1 = true → p h.1 = true := by
  rw [(Option.map_injective fun _ _ he => Value.str.inj he).eq_iff]
  exact joined_filter_inj hsep _ fun g _ => h g.1

/-- **The loop over the headers** appends to the values under each key those of the fields that have it. -/
theorem lookup_collectHeaders (h : collectHeaders limit _headers l = .ok headers) (key : Str) :
    headers.lookup key =
      if (valuesOf (fun name => correctedName name = key) l).isEmpty then _headers.lookup key
      else some (_headers.getList key ++ valuesOf (fun name => correctedName name = key) l) := by
  induction l generalizing _headers with
  | nil =>
    cases h
    rfl
  | cons h₀ l ih =>
    obtain ⟨name, value⟩ := h₀
    unfold collectHeaders at h
    split at h
    · cases h
    · rw [ih h, valuesOf_cons, Dict.getList_push, Dict.push, Dict.lookup_set]
      by_cases hkey : key = correctedName name
      · subst hkey
        simp only [if_true, decide_true, List.isEmpty_cons, Bool.false_eq_true, if_false, List.append_assoc,
          List.singleton_append]
        cases valuesOf (fun n => correctedName n = correctedName name) l <;> rfl
      · simp only [if_neg hkey, eq_comm (a := correctedName name), decide_eq_true_eq]

end

/-! ### The environ -/

section

variable {limit : Option Int} {scope : Scope} {body : Nat} {l : List (Bytes × Bytes)} {environ : Environ}

theorem lt_of_decodeAscii {b : Bytes} {s : Str} (h : decodeAscii b = .ok s) : ∀ x ∈ b, x.toNat < 128 := by
  unfold decodeAscii at h
  split at h
  · next hall => exact fun x hx => of_decide_eq_true (List.all_eq_true.1 hall x hx)
  · cases h

theorem setServer_of_ne {server : Option (Option (Str × Option Int))} (h : server ≠ some none) (environ : Environ) :
    ∃ withServer, setServer environ server = .ok withServer := by
  match server, h with
  | none, _ => exact ⟨_, rfl⟩
  | some (some (host, port)), _ => exact ⟨_, rfl⟩
  | some none, h => exact absurd rfl h

theorem environOf_eq_ok : environOf limit scope l body = .ok environ ↔
    ∃ base, withoutHeaders scope body = .ok base ∧ ∃ headers, collectHeaders limit ∅ l = .ok headers ∧
      headers.assignAll (fun values => .str (join values)) base = environ := by
  unfold environOf
  simp only [buildEnviron_eq_ok, withoutHeaders, bind_eq_ok, getItem_eq_ok, pure, Except.pure, Except.ok.injEq,
    Option.getD_some]
  constructor
  · rintro ⟨v, hv, path, hpath, w, hw, method, hmethod, query, hquery, queryString, hascii, httpVersion, hversion,
      withServer, hs, headers, hl, rfl⟩
    exact ⟨_, ⟨v, hv, path, hpath, w, hw, method, hmethod, query, hquery, queryString, hascii, httpVersion, hversion,
      withServer, hs, rfl⟩, headers, hl, rfl⟩
  · rintro ⟨_, ⟨v, hv, path, hpath, w, hw, method, hmethod, query, hquery, queryString, hascii, httpVersion, hversion,
      withServer, hs, rfl⟩, headers, hl, rfl⟩
    exact ⟨v, hv, path, hpath, w, hw, method, hmethod, query, hquery, queryString, hascii, httpVersion, hversion,
      withServer, hs, headers, hl, rfl⟩

theorem withoutHeaders_isOk : (∃ base, withoutHeaders scope body = .ok base) ↔ Translatable scope := by
  simp only [withoutHeaders, bind_eq_ok, getItem_eq_ok, pure, Except.pure, Except.ok.injEq]
  constructor
  · rintro ⟨_, v, hv, path, hpath, w, hw, method, hmethod, query, hquery, queryString, hascii, httpVersion, hversion,
      withServer, hs, -⟩
    refine ⟨latin1View_eq_ok.1 ⟨v, hv⟩, ⟨path, hpath, latin1View_eq_ok.1 ⟨w, hw⟩⟩, by rw [hmethod]; rfl,
      ⟨query, hquery, lt_of_decodeAscii hascii⟩, by rw [hversion]; rfl, fun hserver => ?_⟩
    rw [hserver] at hs
    cases hs
  · rintro ⟨hroot, ⟨path, hpath, htext⟩, hmethod, ⟨query, hquery, hascii⟩, hversion, hserver⟩
    obtain ⟨v, hv⟩ := latin1View_eq_ok.2 hroot
    obtain ⟨w, hw⟩ := latin1View_eq_ok.2 htext
    obtain ⟨method, hmethod⟩ := Option.isSome_iff_exists.1 hmethod
    obtain ⟨httpVersion, hversion⟩ := Option.isSome_iff_exists.1 hversion
    obtain ⟨withServer, hs⟩ := setServer_of_ne hserver (baseEnviron method v (stripScriptName v w) (decodeLatin1 query)
      httpVersion (scope.scheme.getD (str "http")) body)
    exact ⟨_, v, hv, path, hpath, w, hw, method, hmethod, query, hquery, _, decodeAscii_of_lt hascii, httpVersion,
      hversion, withServer, hs, rfl⟩

/-- A scope is translated iff it has what it needs besides its headers, and these are within the limit. -/
theorem environOf_isOk : (∃ environ, environOf limit scope l body = .ok environ) ↔
    Translatable scope ∧ WithinLimit limit l := by
  rw [← @withoutHeaders_isOk scope body, ← collectHeaders_empty_eq_ok]
  constructor
  · rintro ⟨environ, h⟩
    obtain ⟨base, hbase, headers, hl, -⟩ := environOf_eq_ok.1 h
    exact ⟨⟨base, hbase⟩, headers, hl⟩
  · rintro ⟨⟨base, hbase⟩, headers, hl⟩
    exact ⟨_, environOf_eq_ok.2 ⟨base, hbase, headers, hl, rfl⟩⟩

/-- An entry that is not one of a header is the same with any headers. -/
theorem lookup_not_header (h : environOf limit scope l body = .ok environ) {environ' : Environ}
    {l' : List (Bytes × Bytes)} (h' : environOf limit scope l' body = .ok environ') {key : Str}
    (hkey : isHeaderKey key = false) : environ.lookup key = environ'.lookup key := by
  obtain ⟨base, hbase, headers, hl, rfl⟩ := environOf_eq_ok.1 h
  obtain ⟨base', hbase', headers', hl', rfl⟩ := environOf_eq_ok.1 h'
  cases hbase.symm.trans hbase'
  rw [lookup_assignAll_headers hl hkey, lookup_assignAll_headers hl' hkey]

/-- Before the headers, no entry is one of a header. -/
theorem lookup_withoutHeaders (h : withoutHeaders scope body = .ok environ) {key : Str} (hkey : isHeaderKey key = true) :
    environ.lookup key = none := by
  have hne : ∀ k, isHeaderKey k = false → key ≠ k := by
    rintro k hk rfl
    rw [hk] at hkey
    cases hkey
  simp only [withoutHeaders, bind_eq_ok, getItem_eq_ok, pure, Except.pure, Except.ok.injEq] at h
  obtain ⟨v, hv, path, hpath, w, hw, method, hmethod, query, hquery, queryString, hascii, httpVersion, hversion,
    withServer, hs, rfl⟩ := h
  rw [lookup_setClient (hne _ (by decide)), lookup_setServer hs (hne _ (by decide)) (hne _ (by decide))]
  refine AList.lookup_eq_none.2 fun hmem => ?_
  have hkeys : ∀ k ∈ [str "REQUEST_METHOD", str "SCRIPT_NAME", str "PATH_INFO", str "QUERY_STRING",
      str "SERVER_PROTOCOL", str "wsgi.version", str "wsgi.url_scheme", str "wsgi.input", str "wsgi.errors",
      str "wsgi.multithread", str "wsgi.multiprocess", str "wsgi.run_once"], isHeaderKey k = false := by decide
  exact hne key (hkeys key (AList.mem_keys.1 hmem)) rfl

/-- **The entry under a key** joins the values of the fields that have it. -/
theorem lookup_header (h : environOf limit scope l body = .ok environ) {key : Str} (hkey : isHeaderKey key = true) :
    environ.lookup key = (joined [ord ','] (valuesOf (fun name => correctedName name = key) l)).map .str := by
  obtain ⟨base, hbase, headers, hl, rfl⟩ := environOf_eq_ok.1 h
  rw [Dict.lookup_assignAll, lookup_collectHeaders hl, lookup_withoutHeaders hbase hkey, Option.or_none]
  unfold joined
  split <;> rfl

end

end Asgiref.Wsgi
