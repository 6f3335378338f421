import Asgiref.Lib.Machine
import Asgiref.Python.Codec
import Asgiref.Wsgi.StartResponse
import Mathlib.Data.List.TakeWhile

/-!
# The Content-Length of the response that will be sent

Calls of `start_response`, before and after the response has started.

* `machine` — the attributes of the instance under calls and the start of the response;
* `InStep` — the Content-Length is that of the start message; `AtomicInStep` — and a call replaces both or none;
* `lengths`, `Sound` — the Content-Lengths of a call, and the condition on them;
* `readContentLength_lengths` — what the loop over the headers leaves;
* `atomicInStep_iff` — when every call of a sequence is atomic and keeps the two attributes in step.
-/

namespace Asgiref.Wsgi

open Asgiref.Python Asgiref.Lib

inductive Step where
  | call (a : StartArgs)
  /-- `self.response_started = True` -/
  | begin

variable (u : Unicode)

def stepped (i : Instance) : Step → Instance
  | .call a => (startResponse u i a).1
  | .begin => { i with responseStarted := true }

def machine : Machine Instance Step := ⟨fun i x => some (stepped u i x)⟩

/-- A Content-Length header of a start message, whose names are in lower case. -/
def isLengthField (h : Bytes × Bytes) : Bool := decodeLatin1 h.1 = str "content-length"

/-- The number in the last Content-Length header of a start message. -/
def lastLength (start : Start) : Option (Result Int) :=
  (start.headers.filter isLengthField).getLast?.map fun h => int u (decodeLatin1 h.2)

/-- `response_content_length` is the natural number in the last Content-Length header of `response_start`. -/
def InStep (i : Instance) : Prop :=
  match i.responseStart.bind (lastLength u) with
  | none => i.responseContentLength = none
  | some r => ∃ n : Nat, r = .ok (Int.ofNat n) ∧ i.responseContentLength = some (Int.ofNat n)

/-- A call raises and leaves both attributes alone, or it replaces both; and they are in step. -/
def AtomicInStep (i : Instance) (x : Step) (i' : Instance) : Prop :=
  (∀ a, x = .call a →
    (∃ e, (startResponse u i a).2 = .error e) ∧ i'.responseStart = i.responseStart ∧
        i'.responseContentLength = i.responseContentLength ∨
      (startResponse u i a).2 = .ok () ∧ ∃ start, startOf u a = .ok start ∧ i'.responseStart = some start) ∧
  InStep u i'

/-- The Content-Lengths among the headers of a call. -/
def lengths (hs : List (Str × Str)) : List (Result Int) := (hs.filter (isContentLength u)).map fun h => int u h.2

/-- The call comes to the Content-Length: its status and its headers are in order. -/
def Reaches (i : Instance) (a : StartArgs) : Prop :=
  i.responseStarted = false ∧ ¬ (i.responseStart.isSome = true ∧ a.excInfo.isNone = true) ∧ (startOf u a).isOk = true

/-- The last Content-Length is a natural number and all others are numbers; or one is no number, and the one before it is
what the instance has. -/
def LengthsFit (cur : Option Int) (rs : List (Result Int)) : Prop :=
  if rs.all Except.isOk then ∀ r, rs.getLast? = some r → ∃ n : Nat, r = .ok (Int.ofNat n)
  else (rs.takeWhile Except.isOk).getLast? = cur.map .ok

/-- **The condition on a step.** -/
def Sound (i : Instance) : Step → Prop
  | .call a => Reaches u i a → LengthsFit i.responseContentLength (lengths u a.responseHeaders)
  | .begin => True

section

variable {u}

theorem isOk_iff {R : Type} {r : Result R} : r.isOk = true ↔ ∃ a, r = .ok a := by
  cases r <;> simp [Except.isOk, Except.toBool]

theorem ok_of_mem_takeWhile {R : Type} {r : Result R} {rs : List (Result R)} (h : r ∈ rs.takeWhile Except.isOk) :
    ∃ a, r = .ok a := isOk_iff.1 (List.mem_takeWhile_imp h)

/-- The loop over the headers leaves the last Content-Length it could read, and ends early at one that is no number. -/
theorem readContentLength_lengths (cur : Option Int) (hs : List (Str × Str)) :
    ∃ o : Option Exn, (o = none ↔ (lengths u hs).all Except.isOk = true) ∧ readContentLength u cur hs =
      ((((lengths u hs).takeWhile Except.isOk).getLast?.bind Except.toOption).or cur, o) := by
  induction hs generalizing cur with
  | nil => exact ⟨none, by simp [lengths], by simp [lengths, readContentLength]⟩
  | cons h hs ih =>
    rw [readContentLength]
    split
    · next hc =>
      have hcons : lengths u (h :: hs) = int u h.2 :: lengths u hs := by
        rw [lengths, List.filter_cons_of_pos hc, List.map_cons]
        rfl
      rw [hcons]
      cases hint : int u h.2 with
      | error e => exact ⟨some e, by simp [Except.isOk, Except.toBool], by simp [Except.isOk, Except.toBool]⟩
      | ok n =>
        obtain ⟨o, ho, hread⟩ := ih (some n)
        refine ⟨o, by simpa [Except.isOk, Except.toBool] using ho, ?_⟩
        refine hread.trans ?_
        rw [List.takeWhile_cons_of_pos rfl, List.getLast?_cons]
        cases hlast : ((lengths u hs).takeWhile Except.isOk).getLast? with
        | none => rfl
        | some r =>
          obtain ⟨m, rfl⟩ := ok_of_mem_takeWhile (List.mem_of_getLast? hlast)
          rfl
    · next hc =>
      have hskip : lengths u (h :: hs) = lengths u hs := by rw [lengths, List.filter_cons_of_neg hc]; rfl
      rw [hskip]
      exact ih cur

/-! ### The headers of the start message -/

/-- An encoded header is read back as the lowered name and the value. -/
theorem decode_of_encodeHeader {h : Str × Str} {b : Bytes × Bytes} (hb : encodeHeader u h = .ok b) :
    decodeLatin1 b.1 = u.lower h.1 ∧ decodeLatin1 b.2 = h.2 := by
  obtain ⟨hname, hvalue⟩ := encodeHeader_eq_ok.1 hb
  exact ⟨decodeLatin1_encodeAscii hname, decodeLatin1_encodeAscii hvalue⟩

/-- The Content-Lengths of the encoded headers are those of the call. -/
theorem lengths_of_encoded {hs : List (Str × Str)} {bs : List (Bytes × Bytes)} (h : hs.mapM (encodeHeader u) = .ok bs) :
    ((bs.filter isLengthField).map fun b => int u (decodeLatin1 b.2)) = lengths u hs := by
  induction hs generalizing bs with
  | nil =>
    cases h
    rfl
  | cons h₀ hs ih =>
    obtain ⟨b, rest, hb, hrest, rfl⟩ := mapM_cons_eq_ok.1 h
    obtain ⟨hname, hvalue⟩ := decode_of_encodeHeader hb
    have hsame : isLengthField b = isContentLength u h₀ := by rw [isLengthField, isContentLength, hname]
    rw [lengths, List.filter_cons, List.filter_cons, hsame]
    split
    · rw [List.map_cons, List.map_cons, hvalue, ih hrest]
      rfl
    · exact ih hrest

theorem lastLength_of_startOf {a : StartArgs} {start : Start} (h : startOf u a = .ok start) :
    lastLength u start = (lengths u a.responseHeaders).getLast? := by
  rw [lastLength, ← List.getLast?_map, lengths_of_encoded (startOf_eq_ok.1 h).2]

/-! ### One step -/

variable {i : Instance} {a : StartArgs}

/-- What a call does once its status and its headers are in order. -/
theorem startResponse_of_reaches (h : Reaches u i a) : ∃ start, startOf u a = .ok start ∧
    (∀ length, readContentLength u none a.responseHeaders = (length, none) →
      startResponse u i a = ({ i with responseContentLength := length, responseStart := some start }, .ok ())) ∧
    ∀ length e, readContentLength u none a.responseHeaders = (length, some e) →
      startResponse u i a = ({ i with responseContentLength := length }, .error e) := by
  obtain ⟨hstarted, hsecond, hok⟩ := h
  obtain ⟨start, hs⟩ := isOk_iff.1 hok
  refine ⟨start, hs, fun length hread => ?_, fun length e hread => ?_⟩
  · rw [startResponse, if_neg (by simp [hstarted]), if_neg hsecond, hs, hread]
  · rw [startResponse, if_neg (by simp [hstarted]), if_neg hsecond, hs, hread]

/-- Every Content-Length is a number: both attributes are replaced. -/
theorem startResponse_replaces (h : Reaches u i a) (hall : (lengths u a.responseHeaders).all Except.isOk = true) :
    ∃ start, startOf u a = .ok start ∧ startResponse u i a =
      ({ i with responseContentLength := (lengths u a.responseHeaders).getLast?.bind Except.toOption,
                responseStart := some start }, .ok ()) := by
  obtain ⟨start, hs, hcall, -⟩ := startResponse_of_reaches h
  obtain ⟨o, ho, hread⟩ := readContentLength_lengths none a.responseHeaders
  cases ho.2 hall
  rw [List.takeWhile_eq_self_iff.2 (List.all_eq_true.1 hall), Option.or_none] at hread
  exact ⟨start, hs, hcall _ hread⟩

/-- One is no number: the Content-Length before it is all that the call leaves. -/
theorem startResponse_breaks (h : Reaches u i a) (hall : ¬ (lengths u a.responseHeaders).all Except.isOk = true) :
    ∃ e, startResponse u i a = ({ i with
      responseContentLength := ((lengths u a.responseHeaders).takeWhile Except.isOk).getLast?.bind Except.toOption },
      .error e) := by
  obtain ⟨start, -, -, hcall⟩ := startResponse_of_reaches h
  obtain ⟨o, ho, hread⟩ := readContentLength_lengths none a.responseHeaders
  obtain ⟨e, rfl⟩ := Option.ne_none_iff_exists'.1 fun hnone => hall (ho.1 hnone)
  rw [Option.or_none] at hread
  exact ⟨e, hcall _ e hread⟩

/-- A call that does not come to the Content-Length raises, and changes nothing. -/
theorem startResponse_of_not_reaches (h : ¬ Reaches u i a) : ∃ e, startResponse u i a = (i, .error e) := by
  unfold startResponse
  split
  · exact ⟨_, rfl⟩
  · next hstarted =>
    split
    · exact ⟨_, rfl⟩
    · next hsecond =>
      cases hs : startOf u a with
      | error e => exact ⟨e, rfl⟩
      | ok start => exact absurd ⟨by simpa using hstarted, hsecond, isOk_iff.2 ⟨start, hs⟩⟩ h

/-- Both attributes replaced, they are in step iff the last Content-Length is a natural number. -/
theorem inStep_replaced {start : Start} (h : startOf u a = .ok start) (b : Bool) :
    InStep u ⟨b, (lengths u a.responseHeaders).getLast?.bind Except.toOption, some start⟩ ↔
      ∀ r, (lengths u a.responseHeaders).getLast? = some r → ∃ n : Nat, r = .ok (Int.ofNat n) := by
  unfold InStep
  rw [Option.bind_some, lastLength_of_startOf h]
  cases (lengths u a.responseHeaders).getLast? with
  | none => simp
  | some r =>
    simp only [Option.bind_some, Option.some.injEq, forall_eq']
    refine ⟨fun ⟨n, hr, _⟩ => ⟨n, hr⟩, ?_⟩
    rintro ⟨n, rfl⟩
    exact ⟨n, rfl, rfl⟩

/-- What is left by a call that ends at a Content-Length that is no number. -/
theorem takeWhile_toOption {rs : List (Result Int)} {cur : Option Int} :
    (rs.takeWhile Except.isOk).getLast?.bind Except.toOption = cur ↔
      (rs.takeWhile Except.isOk).getLast? = cur.map .ok := by
  cases hlast : (rs.takeWhile Except.isOk).getLast? with
  | none => cases cur <;> simp
  | some r =>
    obtain ⟨n, rfl⟩ := ok_of_mem_takeWhile (List.mem_of_getLast? hlast)
    cases cur <;> simp [Except.toOption]

/-- **A step that meets the condition.** -/
theorem step_good {x : Step} {i' : Instance} (hi : InStep u i) (hC : Sound u i x) (hs : (machine u).step i x = some i') :
    AtomicInStep u i x i' ∧ InStep u i' := by
  suffices h : AtomicInStep u i x i' from ⟨h, h.2⟩
  cases hs
  cases x with
  | begin => exact ⟨fun a ha => (by cases ha), hi⟩
  | call a =>
    unfold AtomicInStep stepped
    simp only [Step.call.injEq, forall_eq']
    by_cases hr : Reaches u i a
    · have hfit := hC hr
      unfold LengthsFit at hfit
      split at hfit
      · next hall =>
        obtain ⟨start, hs, hcall⟩ := startResponse_replaces hr hall
        rw [hcall]
        exact ⟨.inr ⟨rfl, start, hs, rfl⟩, (inStep_replaced hs _).2 hfit⟩
      · next hall =>
        obtain ⟨e, hcall⟩ := startResponse_breaks hr hall
        rw [hcall, takeWhile_toOption.2 hfit]
        exact ⟨.inl ⟨⟨e, rfl⟩, rfl, rfl⟩, hi⟩
    · obtain ⟨e, hcall⟩ := startResponse_of_not_reaches hr
      rw [hcall]
      exact ⟨.inl ⟨⟨e, rfl⟩, rfl, rfl⟩, hi⟩

/-- **A step that breaks it.** -/
theorem step_bad {x : Step} {i' : Instance} (hC : ¬ Sound u i x) (hs : (machine u).step i x = some i') :
    ¬ AtomicInStep u i x i' := by
  cases hs
  cases x with
  | begin => exact absurd trivial hC
  | call a =>
    obtain ⟨hr, hfit⟩ := Classical.not_imp.1 hC
    rintro ⟨hatomic, hstep⟩
    have hatomic := hatomic a rfl
    unfold LengthsFit at hfit
    split at hfit
    · next hall =>
      obtain ⟨start, hs, hcall⟩ := startResponse_replaces hr hall
      rw [stepped, hcall] at hstep
      exact hfit ((inStep_replaced hs _).1 hstep)
    · next hall =>
      obtain ⟨e, hcall⟩ := startResponse_breaks hr hall
      rw [stepped, hcall] at hatomic
      obtain ⟨-, -, hlength⟩ | ⟨hok, -⟩ := hatomic
      · exact hfit (takeWhile_toOption.1 hlength)
      · cases hok

end

/-- **The calls that are atomic.**  In a sequence of calls of `start_response`, before and after the response has
started, every call is atomic and keeps the two attributes in step iff every call that comes to the Content-Length meets
the condition on its Content-Lengths. -/
theorem atomicInStep_iff (u : Unicode) (xs : List Step) :
    (machine u).Along (AtomicInStep u) .init xs ↔ (machine u).Meets (Sound u) .init xs := by
  obtain ⟨i, hrun⟩ := (machine u).exists_run (fun i x => ⟨stepped u i x, rfl⟩) .init xs
  exact (machine u).along_iff_meets (K := InStep u) (fun _ _ _ => step_good) (fun _ _ _ _ => step_bad) rfl hrun

/-- A call with a Content-Length. -/
def lengthCall (status value : String) (excInfo : Option (Option Exn)) : StartArgs :=
  ⟨str status, [(str "Content-Length", str value)], excInfo⟩

/-- **A Content-Length that is no number.**  The second call raises and has unset `response_content_length`, while the
response that will be sent still has the header of the first. -/
theorem not_atomicInStep : ∃ i, (machine .asciiOnly).run .init [.call (lengthCall "200 OK" "5" none)] = some i ∧
    i.responseContentLength = some 5 ∧ (i.responseStart.bind (lastLength .asciiOnly)) = some (.ok 5) ∧
    ∃ i' e, startResponse .asciiOnly i (lengthCall "500 Error" "many" (some none)) = (i', .error e) ∧
      i'.responseStart = i.responseStart ∧ i'.responseContentLength = none ∧
      ¬ AtomicInStep .asciiOnly i (.call (lengthCall "500 Error" "many" (some none))) i' := by
  refine ⟨_, rfl, rfl, rfl, _, _, rfl, rfl, rfl, ?_⟩
  rintro ⟨-, n, -, hnone⟩
  cases hnone

end Asgiref.Wsgi
