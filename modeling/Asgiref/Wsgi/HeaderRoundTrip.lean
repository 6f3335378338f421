import Asgiref.Wsgi.ContentLength
import Asgiref.Wsgi.HeaderEntries

/-!
# Header values, from the request into the response

`build_environ` decodes header values as Latin-1, and `start_response` encodes them as ASCII.

* `Echoes` — a response header with the string that the environ has for a field of the request;
* `Carries` — the call is accepted, and the start message has the bytes of the request;
* `Sendable` — the condition on a header;
* `startResponse_eq_ok` — the calls of `start_response` that are accepted;
* `carries_iff` — when the application can send back what it received.
-/

namespace Asgiref.Wsgi

open Asgiref.Python Asgiref.Lib

/-- A header that occurs once in the request, and the string the application received for it as a value of the response. -/
structure Echoes (l : List (Bytes × Bytes)) (environ : Environ) (h : Str × Str) (f : Bytes × Bytes) : Prop where
  field : f ∈ l
  once : (l.filter fun g => lowerName g.1 = lowerName f.1).length = 1
  value : environ.lookup (correctedName f.1) = some (.str h.2)

variable (u : Unicode)

/-- `start_response` accepts the call, and the start message carries the bytes of the fields under the names of the call, in
lower case and in order. -/
def Carries (i : Instance) (a : StartArgs) (fs : List (Bytes × Bytes)) : Prop :=
  (startResponse u i a).2 = .ok () ∧ ∃ start, (startResponse u i a).1.responseStart = some start ∧
    start.headers.map Prod.snd = fs.map Prod.snd ∧
    (start.headers.map fun b => decodeLatin1 b.1) = a.responseHeaders.map fun h => u.lower h.1

/-- **The condition on a header.** -/
structure Sendable (l : List (Bytes × Bytes)) (h : Str × Str) (f : Bytes × Bytes) : Prop where
  value : ∀ x ∈ f.2, x.toNat < 128
  name : ∀ c ∈ u.lower h.1, c < 128
  /-- no field of another name is kept under the same key -/
  alone : ∀ g ∈ l, correctedName g.1 = correctedName f.1 → lowerName g.1 = lowerName f.1
  length : isContentLength u h = true → (int u (decodeLatin1 f.2)).isOk = true

section

variable {u}

/-! ### Accepted calls -/

/-- The names of the encoded headers are those of the call, in lower case. -/
theorem names_of_encoded {hs : List (Str × Str)} {bs : List (Bytes × Bytes)} (h : hs.mapM (encodeHeader u) = .ok bs) :
    (bs.map fun b => decodeLatin1 b.1) = hs.map fun h => u.lower h.1 := by
  induction hs generalizing bs with
  | nil =>
    cases h
    rfl
  | cons h₀ hs ih =>
    obtain ⟨b, rest, hb, hrest, rfl⟩ := mapM_cons_eq_ok.1 h
    rw [List.map_cons, List.map_cons, (decode_of_encodeHeader hb).1, ih hrest]

/-- **The accepted calls**: those that come to the Content-Length, where every one is a number. -/
theorem startResponse_eq_ok {i : Instance} {a : StartArgs} :
    (startResponse u i a).2 = .ok () ↔ Reaches u i a ∧ (lengths u a.responseHeaders).all Except.isOk = true := by
  constructor
  · intro hok
    have hreach : Reaches u i a := by
      by_contra hnot
      obtain ⟨e, he⟩ := startResponse_of_not_reaches hnot
      rw [he] at hok
      cases hok
    refine ⟨hreach, ?_⟩
    by_contra hall
    obtain ⟨e, he⟩ := startResponse_breaks hreach hall
    rw [he] at hok
    cases hok
  · rintro ⟨hreach, hall⟩
    obtain ⟨start, -, hcall⟩ := startResponse_replaces hreach hall
    rw [hcall]

/-- A call that is accepted without headers comes to the Content-Length iff its headers are in order. -/
theorem reaches_iff {i : Instance} {a : StartArgs} (h : (startResponse u i { a with responseHeaders := [] }).2 = .ok ()) :
    Reaches u i a ↔ (a.responseHeaders.mapM (encodeHeader u)).isOk = true := by
  obtain ⟨⟨hstarted, hsecond, hstart⟩, -⟩ := startResponse_eq_ok.1 h
  obtain ⟨start, hstart⟩ := isOk_iff.1 hstart
  have hstatus := (startOf_eq_ok.1 hstart).1
  unfold Reaches
  rw [and_iff_right hstarted, and_iff_right hsecond, isOk_iff, isOk_iff]
  constructor
  · rintro ⟨start', hs⟩
    exact ⟨start'.headers, (startOf_eq_ok.1 hs).2⟩
  · rintro ⟨bs, hbs⟩
    exact ⟨⟨start.status, bs⟩, startOf_eq_ok.2 ⟨hstatus, hbs⟩⟩

/-! ### One header -/

variable {limit : Option Int} {scope : Scope} {body : Nat} {l : List (Bytes × Bytes)} {environ : Environ} {h : Str × Str}
  {f : Bytes × Bytes}

theorem filter_of_once {p : Bytes × Bytes → Bool} (hf : f ∈ l) (hp : p f = true) (honce : (l.filter p).length = 1) :
    l.filter p = [f] := by
  obtain ⟨g, hg⟩ := List.length_eq_one_iff.1 honce
  have hmem : f ∈ l.filter p := List.mem_filter.2 ⟨hf, hp⟩
  rw [hg, List.mem_singleton] at hmem
  rw [hg, hmem]

/-- The string for a header that occurs once is its value, iff no field of another name has the same key. -/
theorem echo_eq (hl : environOf limit scope l body = .ok environ) (he : Echoes l environ h f) :
    h.2 = decodeLatin1 f.2 ↔ ∀ g ∈ l, correctedName g.1 = correctedName f.1 → lowerName g.1 = lowerName f.1 := by
  -- The fields that have both the name and the key, and all that have the key.
  have himp : ∀ m, decide (correctedName m = correctedName f.1 ∧ lowerName m = lowerName f.1) = true →
      decide (correctedName m = correctedName f.1) = true := fun m hm => decide_eq_true (of_decide_eq_true hm).1
  have hself : valuesOf (fun m => correctedName m = correctedName f.1 ∧ lowerName m = lowerName f.1) l =
      [decodeLatin1 f.2] := by
    have hsplit : (l.filter fun g => decide (correctedName g.1 = correctedName f.1 ∧ lowerName g.1 = lowerName f.1)) =
        (l.filter fun g => lowerName g.1 = lowerName f.1).filter fun g => correctedName g.1 = correctedName f.1 := by
      rw [List.filter_filter]
      exact List.filter_congr fun g _ => by simp
    rw [valuesOf, hsplit, filter_of_once he.field (by simp) he.once]
    simp
  have hentry := lookup_header hl (isHeaderKey_correctedName f.1)
  rw [he.value] at hentry
  have hinj := entry_inj (show [ord ','] ≠ [] by decide) himp l
  rw [hself, ← hentry, joined_singleton] at hinj
  simp only [decide_eq_true_eq] at hinj
  constructor
  · intro hvalue g hg hkey
    exact (hinj.1 (by rw [hvalue]; rfl) g hg hkey).2
  · intro halone
    have hsame := hinj.2 fun g hg hkey => ⟨hkey, halone g hg hkey⟩
    exact (Value.str.inj (Option.some.inj hsame)).symm

/-- **One header** is encoded to the bytes of its field iff it meets the condition. -/
theorem sendable_iff (hl : environOf limit scope l body = .ok environ) (he : Echoes l environ h f) :
    Sendable u l h f ↔ (∃ b, encodeHeader u h = .ok b ∧ b.2 = f.2) ∧
      (isContentLength u h = true → (int u h.2).isOk = true) := by
  constructor
  · intro hs
    have hvalue : h.2 = decodeLatin1 f.2 := (echo_eq hl he).2 hs.alone
    have hname : encodeAscii (u.lower h.1) = .ok ((u.lower h.1).map fun c => UInt8.ofNat c.val) :=
      if_pos (List.all_eq_true.2 fun c hc => decide_eq_true (hs.name c hc))
    refine ⟨⟨(_, f.2), encodeHeader_eq_ok.2 ⟨hname, ?_⟩, rfl⟩, fun hc => ?_⟩
    · rw [hvalue]
      exact encodeAscii_eq_ok.2 ⟨rfl, hs.value⟩
    · rw [hvalue]
      exact hs.length hc
  · rintro ⟨⟨b, hb, hbytes⟩, hlength⟩
    obtain ⟨hname, hvalue⟩ := encodeHeader_eq_ok.1 hb
    rw [hbytes] at hvalue
    obtain ⟨hback, hascii⟩ := encodeAscii_eq_ok.1 hvalue
    refine ⟨hascii, fun c hc => ?_, (echo_eq hl he).1 hback.symm, fun hc => ?_⟩
    · unfold encodeAscii at hname
      split at hname
      · next hall => exact of_decide_eq_true (List.all_eq_true.1 hall c hc)
      · cases hname
    · rw [hback]
      exact hlength hc

/-- **All headers of a call.** -/
theorem forall₂_sendable_iff (hl : environOf limit scope l body = .ok environ) {hs : List (Str × Str)}
    {fs : List (Bytes × Bytes)} (he : List.Forall₂ (Echoes l environ) hs fs) :
    List.Forall₂ (Sendable u l) hs fs ↔
      (∃ bs, hs.mapM (encodeHeader u) = .ok bs ∧ bs.map Prod.snd = fs.map Prod.snd) ∧
      (lengths u hs).all Except.isOk = true := by
  induction he with
  | nil =>
    refine iff_of_true .nil ⟨⟨[], rfl, rfl⟩, rfl⟩
  | @cons h f hs fs he _ ih =>
    have hlengths : (lengths u (h :: hs)).all Except.isOk = true ↔
        (isContentLength u h = true → (int u h.2).isOk = true) ∧ (lengths u hs).all Except.isOk = true := by
      unfold lengths
      rw [List.filter_cons]
      split <;> simp [*]
    rw [List.forall₂_cons, sendable_iff hl he, ih, hlengths]
    simp only [mapM_cons_eq_ok]
    constructor
    · rintro ⟨⟨⟨b, hb, hbytes⟩, hlength⟩, ⟨bs, hbs, hrest⟩, hall⟩
      exact ⟨⟨b :: bs, ⟨b, bs, hb, hbs, rfl⟩, by rw [List.map_cons, List.map_cons, hbytes, hrest]⟩, hlength, hall⟩
    · rintro ⟨⟨_, ⟨b, bs, hb, hbs, rfl⟩, hsame⟩, hlength, hall⟩
      obtain ⟨hbytes, hrest⟩ := List.cons.inj hsame
      exact ⟨⟨⟨b, hb, hbytes⟩, hlength⟩, ⟨bs, hbs, hrest⟩, hall⟩

end

/-- **Header values, there and back.**  A call of `start_response` that is in order apart from its headers, and whose headers
have the strings that the application received for headers that occur once, is accepted and carries the bytes of the
request iff these bytes are ASCII (and so are the names, lowered; no field of another name has the same key; and what is
sent as a Content-Length is a number). -/
theorem carries_iff {u : Unicode} {limit : Option Int} {scope : Scope} {body : Nat} {l fs : List (Bytes × Bytes)}
    {environ : Environ} {i : Instance} {a : StartArgs} (hl : environOf limit scope l body = .ok environ)
    (hcall : (startResponse u i { a with responseHeaders := [] }).2 = .ok ())
    (he : List.Forall₂ (Echoes l environ) a.responseHeaders fs) :
    Carries u i a fs ↔ List.Forall₂ (Sendable u l) a.responseHeaders fs := by
  rw [forall₂_sendable_iff hl he]
  constructor
  · rintro ⟨hok, start, hstart, hbytes, -⟩
    obtain ⟨hreach, hall⟩ := startResponse_eq_ok.1 hok
    obtain ⟨start', hs, hcalled⟩ := startResponse_replaces hreach hall
    rw [hcalled] at hstart
    cases hstart
    exact ⟨⟨start.headers, (startOf_eq_ok.1 hs).2, hbytes⟩, hall⟩
  · rintro ⟨⟨bs, hbs, hbytes⟩, hall⟩
    have hreach : Reaches u i a := (reaches_iff hcall).2 (by rw [hbs]; rfl)
    obtain ⟨start, hs, hcalled⟩ := startResponse_replaces hreach hall
    refine ⟨startResponse_eq_ok.2 ⟨hreach, hall⟩, start, by rw [hcalled], ?_⟩
    cases hbs.symm.trans (startOf_eq_ok.1 hs).2
    exact ⟨hbytes, names_of_encoded hbs⟩

/-- Two headers of a request. -/
def tokenHeaders (token : UInt8) : List (Bytes × Bytes) := [(bytes "x-a", bytes "1"), (bytes "X-Token", [token])]

/-- The call in which the application sends back the second one. -/
def tokenCall (token : UInt8) : StartArgs := ⟨str "200 OK", [(str "X-Token", decodeLatin1 [token])], none⟩

theorem echoes_tokenHeaders (token : UInt8) : ∃ environ,
    environOf (some 100) (sampleScope none) (tokenHeaders token) 0 = .ok environ ∧
    List.Forall₂ (Echoes (tokenHeaders token) environ) (tokenCall token).responseHeaders
      [(bytes "X-Token", [token])] := by
  obtain ⟨environ, h⟩ : ∃ environ, environOf (some 100) (sampleScope none) (tokenHeaders token) 0 = .ok environ :=
    ⟨_, rfl⟩
  refine ⟨environ, h, .cons ⟨by simp [tokenHeaders], rfl, ?_⟩ .nil⟩
  cases h
  rfl

theorem carries_tokenHeaders : Carries .asciiOnly .init (tokenCall 65) [(bytes "X-Token", [65])] := by
  obtain ⟨environ, h, he⟩ := echoes_tokenHeaders 65
  have hname : (Unicode.asciiOnly.lower (str "X-Token")).all (· < 128) = true := rfl
  have hvalue : ∀ x ∈ [(65 : UInt8)], x.toNat < 128 := fun x hx => by rw [List.mem_singleton.1 hx]; decide
  exact (carries_iff h rfl he).2 (.cons ⟨hvalue, fun c hc => of_decide_eq_true (List.all_eq_true.1 hname c hc),
    by decide, by decide⟩ .nil)

/-- **A value that is not ASCII** is received, and cannot be sent back. -/
theorem not_carries : ∃ environ, environOf (some 100) (sampleScope none) (tokenHeaders 0xE9) 0 = .ok environ ∧
    List.Forall₂ (Echoes (tokenHeaders 0xE9) environ) (tokenCall 0xE9).responseHeaders [(bytes "X-Token", [0xE9])] ∧
    (∃ e, (startResponse .asciiOnly .init (tokenCall 0xE9)).2 = .error e) ∧
    ¬ Carries .asciiOnly .init (tokenCall 0xE9) [(bytes "X-Token", [0xE9])] := by
  obtain ⟨environ, h, he⟩ := echoes_tokenHeaders 0xE9
  refine ⟨environ, h, he, ⟨_, rfl⟩, ?_⟩
  rintro ⟨hok, -⟩
  cases hok

end Asgiref.Wsgi
