import Asgiref.Python.Utf8
import Asgiref.Wsgi.Environ

/-!
# `SCRIPT_NAME` and `PATH_INFO`

* `readBack` — what an application makes of the strings of WSGI: re-encoded as Latin-1 and decoded as UTF-8;
* `AtBoundary`, `OnSegments` — `root_path` covers whole segments of the path, and then it is taken off;
* `prefix_latin1View` — the prefix test on the views is that on the strings;
* `onSegments_iff` — when `PATH_INFO` is what the path has after whole segments.
-/

namespace Asgiref.Wsgi

open Asgiref.Python Asgiref.Lib

/-- `s.encode("latin1").decode("utf8")` -/
def readBack (s : Str) : Result Str := do
  let b ← encodeLatin1 s
  decodeUtf8 b

/-- `root_path` is the path, or is followed in it by a slash. -/
def AtBoundary (root path : Str) : Prop := root = path ∨ root ++ [ord '/'] <+: path

instance (root path : Str) : Decidable (AtBoundary root path) := inferInstanceAs (Decidable (_ ∨ _))

/-- `PATH_INFO` is empty or begins with a slash.  After a `root_path` of whole segments it is the rest of the path, and
the whole path otherwise. -/
def OnSegments (root path : Str) (environ : Environ) : Prop :=
  ∃ scriptName pathInfo, environ.lookup (str "SCRIPT_NAME") = some (.str scriptName) ∧
    environ.lookup (str "PATH_INFO") = some (.str pathInfo) ∧ (pathInfo = [] ∨ pathInfo.head? = some (ord '/')) ∧
    readBack (if AtBoundary root path then scriptName ++ pathInfo else pathInfo) = .ok path

section

variable {s t : Str} {v w : Str}

theorem latin1View_eq_ok_iff : latin1View s = .ok v ↔ ∃ b, encodeUtf8 s = .ok b ∧ decodeLatin1 b = v := by
  unfold latin1View
  cases encodeUtf8 s <;> simp [Except.map]

theorem readBack_latin1View (h : latin1View s = .ok v) : readBack v = .ok s := by
  obtain ⟨b, hb, rfl⟩ := latin1View_eq_ok_iff.1 h
  unfold readBack
  rw [encodeLatin1_decodeLatin1]
  exact decodeUtf8_of_encodeUtf8 hb

theorem latin1View_append (h : latin1View (s ++ t) = .ok v) :
    ∃ x y, latin1View s = .ok x ∧ latin1View t = .ok y ∧ x ++ y = v := by
  obtain ⟨b, hb, rfl⟩ := latin1View_eq_ok_iff.1 h
  obtain ⟨x, y, hx, hy, rfl⟩ := encodeUtf8_append.1 hb
  exact ⟨_, _, latin1View_eq_ok_iff.2 ⟨x, hx, rfl⟩, latin1View_eq_ok_iff.2 ⟨y, hy, rfl⟩, (decodeLatin1_append x y).symm⟩

/-- **The prefix test.**  The view of one string begins with that of another iff the string does. -/
theorem prefix_latin1View (hv : latin1View s = .ok v) (hw : latin1View t = .ok w) :
    v.isPrefixOf w = true ↔ s <+: t := by
  obtain ⟨x, hx, rfl⟩ := latin1View_eq_ok_iff.1 hv
  obtain ⟨y, hy, rfl⟩ := latin1View_eq_ok_iff.1 hw
  rw [List.isPrefixOf_iff_prefix, ← prefix_iff_of_encodeUtf8 hx hy]
  exact prefix_decodeLatin1 x y

theorem prefix_of_head? {c : CodePoint} (h : s.head? = some c) : [c] <+: s := by
  cases s with
  | nil => cases h
  | cons d r =>
    cases h
    exact ⟨r, rfl⟩

/-- A view begins with a slash if the string does. -/
theorem head?_latin1View (h : latin1View s = .ok v) (hs : s.head? = some (ord '/')) : v.head? = some (ord '/') := by
  obtain ⟨r, rfl⟩ := prefix_of_head? hs
  obtain ⟨x, y, hx, -, rfl⟩ := latin1View_append h
  cases hx
  rfl

/-- What is taken off, where the view of the path begins with that of `root_path`. -/
theorem stripScriptName_append (hv : latin1View s = .ok v) (hw : latin1View (s ++ t) = .ok w) :
    latin1View t = .ok (stripScriptName v w) ∧ v ++ stripScriptName v w = w := by
  obtain ⟨x, y, hx, hy, rfl⟩ := latin1View_append hw
  cases hv.symm.trans hx
  unfold stripScriptName
  rw [if_pos (List.isPrefixOf_iff_prefix.2 (List.prefix_append v y)), List.drop_left]
  exact ⟨hy, rfl⟩

theorem stripScriptName_of_not (hv : latin1View s = .ok v) (hw : latin1View t = .ok w) (h : ¬ s <+: t) :
    stripScriptName v w = w := by
  unfold stripScriptName
  rw [if_neg fun hpre => h ((prefix_latin1View hv hw).1 hpre)]

theorem prefix_of_atBoundary (h : AtBoundary s t) : s <+: t := by
  obtain rfl | h := h
  · exact List.prefix_refl s
  · exact (List.prefix_append s _).trans h

end

/-- The entries of the environ, which no header and no server changes. -/
theorem lookup_script_path {limit : Option Int} {selfScope scope : Scope} {body : Nat} {environ : Environ}
    (h : buildEnviron limit selfScope scope body = .ok environ) {path : Str} (hpath : scope.path = some path) :
    ∃ v w, latin1View (scope.rootPath.getD []) = .ok v ∧ latin1View path = .ok w ∧
      environ.lookup (str "SCRIPT_NAME") = some (.str v) ∧
      environ.lookup (str "PATH_INFO") = some (.str (stripScriptName v w)) := by
  obtain ⟨v, hv, path', hpath', w, hw, method, -, query, -, queryString, -, httpVersion, -, withServer, hs, headers, hl,
    rfl⟩ := buildEnviron_eq_ok.1 h
  cases hpath.symm.trans hpath'
  refine ⟨v, w, hv, hw, ?_, ?_⟩
  · rw [lookup_required hl (by decide), lookup_setServer hs (by decide) (by decide)]
    rfl
  · rw [lookup_required hl (by decide), lookup_setServer hs (by decide) (by decide)]
    rfl

/-- **Segments.**  The prefix test on the views is that on the strings, and `PATH_INFO` is what is left after whole
segments iff `root_path` is no mere textual prefix of the path. -/
theorem onSegments_iff {limit : Option Int} {selfScope scope : Scope} {body : Nat} {environ : Environ}
    (h : buildEnviron limit selfScope scope body = .ok environ) {path : Str} (hpath : scope.path = some path)
    (hslash : path.head? = some (ord '/')) :
    (∀ s t v w, latin1View s = .ok v → latin1View t = .ok w → (v.isPrefixOf w = true ↔ s <+: t)) ∧
      (OnSegments (scope.rootPath.getD []) path environ ↔
        (scope.rootPath.getD [] <+: path → AtBoundary (scope.rootPath.getD []) path)) := by
  refine ⟨fun s t v w hv hw => prefix_latin1View hv hw, ?_⟩
  obtain ⟨v, w, hv, hw, hscript, hinfo⟩ := lookup_script_path h hpath
  generalize scope.rootPath.getD [] = root at *
  constructor
  · rintro ⟨v', i, hscript', hinfo', -, hread⟩ ⟨rest, rfl⟩
    by_contra hnot
    cases hinfo.symm.trans hinfo'
    rw [if_neg hnot, readBack_latin1View (stripScriptName_append hv hw).1] at hread
    -- the rest is read back as the whole path, so nothing has been taken off
    have hroot : root = [] := List.self_eq_append_left.1 (Except.ok.inj hread)
    subst hroot
    exact hnot (.inr (prefix_of_head? hslash))
  · intro hboundary
    refine ⟨v, _, hscript, hinfo, ?_⟩
    by_cases hbegins : root <+: path
    · obtain ⟨rest, rfl⟩ := hbegins
      have hat := hboundary (List.prefix_append root rest)
      obtain ⟨hrest, hwhole⟩ := stripScriptName_append hv hw
      rw [if_pos hat, hwhole]
      refine ⟨?_, readBack_latin1View hw⟩
      obtain hsame | hslash' := hat
      · have hnil : rest = [] := List.self_eq_append_right.1 hsame
        subst hnil
        exact .inl (Except.ok.inj hrest).symm
      · obtain ⟨r, rfl⟩ := (List.prefix_append_right_inj root).1 hslash'
        exact .inr (head?_latin1View hrest rfl)
    · rw [if_neg fun hat => hbegins (prefix_of_atBoundary hat), stripScriptName_of_not hv hw hbegins]
      exact ⟨.inr (head?_latin1View hw hslash), readBack_latin1View hw⟩

/-- A request below `root_path`, with a letter outside ASCII. -/
def underRoot (root path : String) : Scope :=
  { sampleScope none with path := some (str path), rootPath := some (str root) }

theorem onSegments_underRoot :
    ∃ environ, buildEnviron (some 100) (underRoot "/bäse" "/bäse/foo") (underRoot "/bäse" "/bäse/foo") 0 = .ok environ ∧
      OnSegments (str "/bäse") (str "/bäse/foo") environ := by
  obtain ⟨environ, h⟩ : ∃ environ, buildEnviron (some 100) (underRoot "/bäse" "/bäse/foo")
    (underRoot "/bäse" "/bäse/foo") 0 = .ok environ := ⟨_, rfl⟩
  exact ⟨environ, h, (onSegments_iff h rfl rfl).2.2 fun _ => .inr (by decide)⟩

/-- **A textual prefix** is taken off in the middle of a segment. -/
theorem not_onSegments :
    ∃ environ, buildEnviron (some 100) (underRoot "/foo" "/foobar") (underRoot "/foo" "/foobar") 0 = .ok environ ∧
      environ.lookup (str "PATH_INFO") = some (.str (str "bar")) ∧
      ¬ OnSegments (str "/foo") (str "/foobar") environ := by
  refine ⟨_, rfl, rfl, ?_⟩
  rintro ⟨v, i, -, hinfo, hhead, -⟩
  cases hinfo
  exact absurd hhead (by decide)

end Asgiref.Wsgi
