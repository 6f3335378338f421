import Asgiref.Wsgi.HeaderEntries

/-!
# Headers with different names, and repeated ones

* `mixesWith` — the fields that the mapping of CGI does not tell from those of a header;
* `entries_independent` — the entry of a header depends on these fields, and no other entry depends on the headers;
* `Folded` — the entry of a header is made of all its fields, joined by what belongs to it;
* `Foldable` — the condition on the fields;
* `folded_iff` — when repeated fields are folded without loss.
-/

namespace Asgiref.Wsgi

open Asgiref.Python Asgiref.Lib

/-- The separator of a header whose fields are repeated. -/
def separator (name : Bytes) : Str := if decodeLatin1 (lowerName name) = str "cookie" then str "; " else str ","

/-- A field named `m` is not told from the header.  It has the same name up to case, where the header has a key of its
own; else it has none, and the same name in CGI. -/
def mixesWith (name m : Bytes) : Bool :=
  if isSpecial (lowerName name) then lowerName m = lowerName name else !isSpecial m && cgiName m = cgiName name

/-- The entry of the header is made of the values of its fields, in their order. -/
def Folded (l : List (Bytes × Bytes)) (environ : Environ) (name : Bytes) : Prop :=
  environ.lookup (readKey name) =
    (joined (separator name) (valuesOf (fun m => lowerName m = lowerName name) l)).map .str

/-- No other field goes to the entry of the header, all of its own do, and a cookie comes once. -/
structure Foldable (l : List (Bytes × Bytes)) (name : Bytes) : Prop where
  alone : isSpecial (lowerName name) = false → ∀ g ∈ l, isSpecial g.1 = false → cgiName g.1 = cgiName name →
    lowerName g.1 = lowerName name
  lowered : isSpecial (lowerName name) = true → ∀ g ∈ l, lowerName g.1 = lowerName name → g.1 = lowerName name
  once : decodeLatin1 (lowerName name) = str "cookie" → (valuesOf (fun m => lowerName m = lowerName name) l).length ≤ 1

section

variable {limit : Option Int} {scope : Scope} {body : Nat} {l l' : List (Bytes × Bytes)} {environ environ' : Environ}

theorem isHeaderKey_readKey (name : Bytes) : isHeaderKey (readKey name) = true := isHeaderKey_correctedName _

theorem valuesOf_filter {p q : Bytes → Bool} (h : ∀ name, p name = true → q name = true) (l : List (Bytes × Bytes)) :
    valuesOf p (l.filter fun g => q g.1) = valuesOf p l := by
  unfold valuesOf
  rw [List.filter_filter]
  congr 1
  refine List.filter_congr fun g _ => ?_
  cases hp : p g.1 with
  | true => rw [h g.1 hp]; rfl
  | false => rfl

/-- The fields with the key of a header that has no key of its own. -/
theorem correctedName_eq_readKey {m name : Bytes} (hn : isSpecial (lowerName name) = false) :
    correctedName m = readKey name ↔ isSpecial m = false ∧ cgiName m = cgiName name := by
  constructor
  · intro h
    have hm := (isSpecial_of_correctedName h).trans hn
    exact ⟨hm, (cgiName_of_correctedName h).trans (cgiName_lowerName name)⟩
  · rintro ⟨hm, h⟩
    rw [readKey, correctedName_of_not_special hm, correctedName_of_not_special hn, cgiName_lowerName, h]

/-- A header with a key of its own: the fields under the key have the very name. -/
theorem correctedName_eq_readKey_special {m name : Bytes} (hn : isSpecial (lowerName name) = true) :
    correctedName m = readKey name ↔ m = lowerName name :=
  ⟨fun h => eq_of_correctedName_special h hn, fun h => by rw [h, readKey]⟩

/-- What goes to the entry of a header is not told from it. -/
theorem mixesWith_of_correctedName {m name : Bytes} (h : correctedName m = readKey name) : mixesWith name m = true := by
  unfold mixesWith
  cases hn : isSpecial (lowerName name) with
  | true =>
    rw [if_pos rfl, (correctedName_eq_readKey_special hn).1 h, lowerName_lowerName]
    exact decide_eq_true rfl
  | false =>
    obtain ⟨hm, hname⟩ := (correctedName_eq_readKey hn).1 h
    rw [if_neg Bool.false_ne_true, hm, decide_eq_true hname]
    rfl

/-- **Headers do not interfere** where CGI tells their names apart, and other entries do not depend on them. -/
theorem entries_independent (h : environOf limit scope l body = .ok environ)
    (h' : environOf limit scope l' body = .ok environ') :
    (∀ name : Bytes, (l.filter fun g => mixesWith name g.1) = (l'.filter fun g => mixesWith name g.1) →
      environ.lookup (readKey name) = environ'.lookup (readKey name)) ∧
    ∀ key, isHeaderKey key = false → environ.lookup key = environ'.lookup key := by
  refine ⟨fun name hsame => ?_, fun key hkey => lookup_not_header h h' hkey⟩
  have hmixes : ∀ m, decide (correctedName m = readKey name) = true → mixesWith name m = true :=
    fun m hm => mixesWith_of_correctedName (of_decide_eq_true hm)
  rw [lookup_header h (isHeaderKey_readKey name), lookup_header h' (isHeaderKey_readKey name), ← valuesOf_filter hmixes l,
    ← valuesOf_filter hmixes l', hsame]

end

/-- The fields named `x-a` are the same. -/
theorem entries_independent_sample : ∃ environ environ',
    environOf (some 100) (sampleScope none) [(bytes "x-a", bytes "1")] 0 = .ok environ ∧
    environOf (some 100) (sampleScope none) [(bytes "x-b", bytes "2"), (bytes "x-a", bytes "1")] 0 = .ok environ' ∧
    environ.lookup (readKey (bytes "x-a")) = environ'.lookup (readKey (bytes "x-a")) := by
  obtain ⟨environ, h⟩ : ∃ environ, environOf (some 100) (sampleScope none) [(bytes "x-a", bytes "1")] 0 = .ok environ :=
    ⟨_, rfl⟩
  obtain ⟨environ', h'⟩ : ∃ environ', environOf (some 100) (sampleScope none)
    [(bytes "x-b", bytes "2"), (bytes "x-a", bytes "1")] 0 = .ok environ' := ⟨_, rfl⟩
  exact ⟨environ, environ', h, h', (entries_independent h h').1 _ rfl⟩

/-- **A name with an underscore** is read as that with a hyphen. -/
theorem underscore_interferes : ∃ environ environ',
    environOf (some 100) (sampleScope none) [(bytes "x-a", bytes "1")] 0 = .ok environ ∧
    environOf (some 100) (sampleScope none) [(bytes "x-a", bytes "1"), (bytes "x_a", bytes "2")] 0 = .ok environ' ∧
    ([(bytes "x-a", bytes "1")].filter fun g => lowerName g.1 = bytes "x-a") =
      ([(bytes "x-a", bytes "1"), (bytes "x_a", bytes "2")].filter fun g => lowerName g.1 = bytes "x-a") ∧
    environ.lookup (readKey (bytes "x-a")) = some (.str (str "1")) ∧
    environ'.lookup (readKey (bytes "x-a")) = some (.str (str "1,2")) :=
  ⟨_, _, rfl, rfl, rfl, rfl, rfl⟩

/-! ### The fields of a header -/

section

variable {limit : Option Int} {scope : Scope} {body : Nat} {l : List (Bytes × Bytes)} {environ : Environ}
  {m name : Bytes}

theorem replace_singleton {c k : CodePoint} {r ks : Str} (hk : 65 ≤ k.val ∧ k.val ≤ 90)
    (h : replace (ord '-') (ord '_') [c] ++ r = k :: ks) : c = k ∧ r = ks := by
  obtain ⟨hc, hr⟩ := List.cons.inj h
  refine ⟨?_, hr⟩
  dsimp only at hc
  split at hc
  · have h95 : k.val = 95 := by rw [← hc]; rfl
    omega
  · exact hc

/-- A letter that CGI leaves, the letter S aside, comes from that letter. -/
theorem cgiName_cons {x : UInt8} {k : CodePoint} {ks : Str} (hk : 65 ≤ k.val ∧ k.val ≤ 90 ∧ k.val ≠ 83)
    (h : cgiName (x :: m) = k :: ks) : cgiName m = ks ∧ (lowerByte x).toNat = k.val + 32 := by
  have hcons : cgiName (x :: m) =
      replace (ord '-') (ord '_') (upperLatin1 ⟨x.toNat, Nat.lt_trans x.toNat_lt (by decide)⟩) ++ cgiName m := by
    simp only [cgiName, replace, upper, decodeLatin1, List.map_cons, List.flatMap_cons, List.map_append]
  rw [hcons] at h
  unfold upperLatin1 at h
  have hlower := lowerByte_cases x
  split at h
  · next hx =>
    obtain ⟨hc, hm⟩ := replace_singleton ⟨hk.1, hk.2.1⟩ h
    have hval : x.toNat - 32 = k.val := congrArg Fin.val hc
    obtain ⟨hsame, -⟩ | ⟨hupper, -⟩ := hlower
    · simp only at hx
      exact ⟨hm, by rw [hsame]; omega⟩
    · simp only at hx
      omega
  · split at h
    · obtain ⟨hc, -⟩ := replace_singleton ⟨hk.1, hk.2.1⟩ h
      have hval : 0x39C = k.val := congrArg Fin.val hc
      omega
    · split at h
      · have hc := (List.cons.inj h).1
        have hval : 83 = k.val := congrArg Fin.val hc
        omega
      · split at h
        · obtain ⟨hc, -⟩ := replace_singleton ⟨hk.1, hk.2.1⟩ h
          have hval : 0x178 = k.val := congrArg Fin.val hc
          omega
        · obtain ⟨hc, hm⟩ := replace_singleton ⟨hk.1, hk.2.1⟩ h
          have hval : x.toNat = k.val := congrArg Fin.val hc
          obtain ⟨-, hnot⟩ | ⟨-, hadd⟩ := hlower
          · omega
          · exact ⟨hm, by rw [hadd, hval]⟩

theorem upperLatin1_ne_nil (c : CodePoint) : upperLatin1 c ≠ [] := by
  unfold upperLatin1
  repeat' split
  all_goals exact List.cons_ne_nil _ _

/-- A name of which CGI leaves such letters only. -/
theorem lowerName_of_cgiName {ks : Str} (hks : ∀ k ∈ ks, 65 ≤ k.val ∧ k.val ≤ 90 ∧ k.val ≠ 83) (h : cgiName m = ks) :
    (decodeLatin1 (lowerName m)).map Fin.val = ks.map fun k => k.val + 32 := by
  induction m generalizing ks with
  | nil =>
    subst h
    rfl
  | cons x m ih =>
    cases ks with
    | nil =>
      simp only [cgiName, replace, upper, decodeLatin1, List.map_cons, List.flatMap_cons, List.map_append,
        List.append_eq_nil_iff, List.map_eq_nil_iff] at h
      exact absurd h.1 (upperLatin1_ne_nil _)
    | cons k ks =>
      obtain ⟨hm, hx⟩ := cgiName_cons (hks k (.head _)) h
      have ih' := ih (fun c hc => hks c (.tail _ hc)) hm
      rw [List.map_cons, ← ih', ← hx]
      rfl

/-- No other name shares the key of the cookies. -/
theorem lowerName_cookie (hname : decodeLatin1 (lowerName name) = str "cookie") :
    cgiName m = cgiName name ↔ lowerName m = lowerName name := by
  refine ⟨fun h => decodeLatin1_injective ?_, cgiName_of_lowerName_eq⟩
  have hcookie : cgiName name = str "COOKIE" := by
    rw [← cgiName_lowerName, cgiName, hname]
    rfl
  have hall : (str "COOKIE").all (fun k => decide (65 ≤ k.val ∧ k.val ≤ 90 ∧ k.val ≠ 83)) = true := rfl
  have hletters : ∀ k ∈ str "COOKIE", 65 ≤ k.val ∧ k.val ≤ 90 ∧ k.val ≠ 83 := fun k hk =>
    of_decide_eq_true (List.all_eq_true.1 hall k hk)
  have hvals := lowerName_of_cgiName hletters (h.trans hcookie)
  rw [hname]
  exact List.map_injective_iff.2 (fun _ _ he => Fin.ext he) hvals

/-! ### Folding -/

/-- **Folding**, for one header with a key of its own. -/
theorem folded_special_iff (h : environOf limit scope l body = .ok environ) (hn : isSpecial (lowerName name) = true) :
    Folded l environ name ↔ ∀ g ∈ l, lowerName g.1 = lowerName name → g.1 = lowerName name := by
  have hsep : separator name = str "," := by
    unfold separator
    rw [if_neg]
    intro hcookie
    rw [isSpecial, hcookie] at hn
    exact absurd hn (by decide)
  have himp : ∀ m, decide (correctedName m = readKey name) = true → decide (lowerName m = lowerName name) = true := by
    intro m hm
    have hsame := (correctedName_eq_readKey_special hn).1 (of_decide_eq_true hm)
    exact decide_eq_true (by rw [hsame, lowerName_lowerName])
  unfold Folded
  rw [lookup_header h (isHeaderKey_readKey name), hsep]
  refine (entry_inj (by decide) himp l).trans ?_
  simp only [decide_eq_true_eq, correctedName_eq_readKey_special hn]

/-- A header that has no key of its own, the cookies aside. -/
theorem folded_plain_iff (h : environOf limit scope l body = .ok environ) (hn : isSpecial (lowerName name) = false)
    (hcookie : decodeLatin1 (lowerName name) ≠ str "cookie") : Folded l environ name ↔
      ∀ g ∈ l, isSpecial g.1 = false → cgiName g.1 = cgiName name → lowerName g.1 = lowerName name := by
  have himp : ∀ m, decide (lowerName m = lowerName name) = true → decide (correctedName m = readKey name) = true := by
    intro m hm
    have hsame := of_decide_eq_true hm
    refine decide_eq_true ((correctedName_eq_readKey hn).2 ⟨?_, cgiName_of_lowerName_eq hsame⟩)
    exact not_isSpecial_of_lowerName (hsame ▸ hn)
  unfold Folded
  rw [lookup_header h (isHeaderKey_readKey name), separator, if_neg hcookie, eq_comm]
  refine (entry_inj (by decide) himp l).trans ?_
  simp only [decide_eq_true_eq, correctedName_eq_readKey hn, and_imp]

/-- The cookies. -/
theorem folded_cookie_iff (h : environOf limit scope l body = .ok environ)
    (hcookie : decodeLatin1 (lowerName name) = str "cookie") :
    Folded l environ name ↔ (valuesOf (fun m => lowerName m = lowerName name) l).length ≤ 1 := by
  have hn : isSpecial (lowerName name) = false := by
    rw [isSpecial, hcookie]
    rfl
  have hsame : valuesOf (fun m => correctedName m = readKey name) l =
      valuesOf (fun m => lowerName m = lowerName name) l := by
    unfold valuesOf
    congr 1
    refine List.filter_congr fun g _ => decide_eq_decide.2 ?_
    rw [correctedName_eq_readKey hn, lowerName_cookie hcookie, and_iff_right_iff_imp]
    exact fun he => not_isSpecial_of_lowerName (he ▸ hn)
  unfold Folded
  rw [lookup_header h (isHeaderKey_readKey name), separator, if_pos hcookie, hsame,
    (Option.map_injective fun _ _ he => Value.str.inj he).eq_iff]
  exact joined_eq_joined_iff rfl _

end

/-- **Folding without loss.**  The entry of a header is the list of all values of its fields, in order and with its
separator, iff no field of another name goes there, its own fields all do, and a cookie comes once. -/
theorem folded_iff {limit : Option Int} {scope : Scope} {body : Nat} {l : List (Bytes × Bytes)} {environ : Environ}
    (h : environOf limit scope l body = .ok environ) (name : Bytes) : Folded l environ name ↔ Foldable l name := by
  cases hn : isSpecial (lowerName name) with
  | true =>
    have hcookie : decodeLatin1 (lowerName name) ≠ str "cookie" := by
      intro hcookie
      rw [isSpecial, hcookie] at hn
      exact absurd hn (by decide)
    rw [folded_special_iff h hn]
    exact ⟨fun hl => ⟨fun hf => (by rw [hn] at hf; cases hf), fun _ => hl, fun hc => absurd hc hcookie⟩,
      fun hf => hf.lowered hn⟩
  | false =>
    by_cases hcookie : decodeLatin1 (lowerName name) = str "cookie"
    · rw [folded_cookie_iff h hcookie]
      exact ⟨fun hl => ⟨fun _ g _ _ hg => (lowerName_cookie hcookie).1 hg, fun ht => (by rw [hn] at ht; cases ht),
        fun _ => hl⟩, fun hf => hf.once hcookie⟩
    · rw [folded_plain_iff h hn hcookie]
      exact ⟨fun hl => ⟨fun _ => hl, fun ht => (by rw [hn] at ht; cases ht), fun hc => absurd hc hcookie⟩,
        fun hf => hf.alone hn⟩

/-- Three fields, two of them with one name. -/
def repeatedFields : List (Bytes × Bytes) :=
  [(bytes "x-a", bytes "1"), (bytes "x-b", bytes "2"), (bytes "X-A", bytes "3")]

theorem folded_repeatedFields : ∃ environ, environOf (some 100) (sampleScope none) repeatedFields 0 = .ok environ ∧
    Folded repeatedFields environ (bytes "x-a") := by
  obtain ⟨environ, h⟩ : ∃ environ, environOf (some 100) (sampleScope none) repeatedFields 0 = .ok environ := ⟨_, rfl⟩
  exact ⟨environ, h, (folded_iff h _).2 ⟨by decide, by decide, by decide⟩⟩

/-- **Two cookies** are joined with a comma. -/
theorem not_folded : ∃ environ,
    environOf (some 100) (sampleScope none) [(bytes "cookie", bytes "a=1"), (bytes "cookie", bytes "b=2")] 0 =
      .ok environ ∧
    environ.lookup (str "HTTP_COOKIE") = some (.str (str "a=1,b=2")) ∧
    ¬ Folded [(bytes "cookie", bytes "a=1"), (bytes "cookie", bytes "b=2")] environ (bytes "cookie") := by
  refine ⟨_, rfl, rfl, fun h => ?_⟩
  have hjoined : some (Value.str (str "a=1,b=2")) = some (.str (str "a=1; b=2")) := h
  exact absurd hjoined (by decide)

end Asgiref.Wsgi
