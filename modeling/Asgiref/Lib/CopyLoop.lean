import Mathlib.Data.List.AList

/-!
# Copying the bindings of one map into another

`copyLoop f l m` goes through the bindings `l` and lets `f` decide, from the binding and from what `m` has at
that key, whether to leave `m` alone, to set the key, or to stop with an error; the bindings set before an
error stay.  As the keys of `l` are distinct, what `f` sees at a key is what `m` had there at the start:

* `copyLoop_snd_eq_none`: the loop ends without an error iff no binding, tested against the start, fails;
* `lookup_copyLoop`: then every key of `l` has what `f` makes of its binding;
* `lookup_copyLoop_cases`: with an error or without, a key keeps its value or has what `f` makes of its binding;
* `copyLive_keys`: where the map is copied into itself, it makes no difference that its values are read as the loop
  comes to them.
-/

namespace Asgiref.Lib

universe u v w

variable {α : Type u} {β : α → Type v} {ε : Type w} [DecidableEq α]

/-- The loop, and the error that stopped it. -/
def copyLoop (f : (a : α) → β a → Option (β a) → Except ε (Option (β a))) :
    List (Sigma β) → AList β → AList β × Option ε
  | [], m => (m, none)
  | ⟨a, b⟩ :: l, m =>
    match f a b (m.lookup a) with
    | .ok none => copyLoop f l m
    | .ok (some c) => copyLoop f l (m.insert a c)
    | .error e => (m, some e)

/-- The loop over keys whose values are read in the map that is being changed. -/
def copyLive (f : (a : α) → β a → Option (β a) → Except ε (Option (β a))) : List α → AList β → AList β × Option ε
  | [], m => (m, none)
  | a :: l, m =>
    match m.lookup a with
    | none => copyLive f l m
    | some b =>
      match f a b (some b) with
      | .ok none => copyLive f l m
      | .ok (some c) => copyLive f l (m.insert a c)
      | .error e => (m, some e)

section

variable {f : (a : α) → β a → Option (β a) → Except ε (Option (β a))}

/-- A key without a binding in `l` is left alone. -/
theorem lookup_copyLoop_of_notMem {a : α} : ∀ {l : List (Sigma β)} {m : AList β}, a ∉ l.keys →
    (copyLoop f l m).1.lookup a = m.lookup a
  | [], m, _ => rfl
  | ⟨a', b⟩ :: l, m, h => by
    have hne : a ≠ a' := fun h' => h (by simp [h'])
    have hl : a ∉ l.keys := fun h' => h (by simp [h'])
    unfold copyLoop
    split
    · exact lookup_copyLoop_of_notMem hl
    · rw [lookup_copyLoop_of_notMem hl, AList.lookup_insert_ne hne]
    · rfl

theorem copyLoop_snd_eq_none : ∀ {l : List (Sigma β)} {m : AList β}, l.NodupKeys →
    ((copyLoop f l m).2 = none ↔ ∀ p ∈ l, ∀ e, f p.1 p.2 (m.lookup p.1) ≠ .error e)
  | [], m, _ => by simp [copyLoop]
  | ⟨a, b⟩ :: l, m, hnd => by
    have ha : a ∉ l.keys := List.notMem_keys_of_nodupKeys_cons hnd
    have hl : l.NodupKeys := List.nodupKeys_of_nodupKeys_cons hnd
    have hkeep : ∀ c, ∀ p ∈ l, (m.insert a c).lookup p.1 = m.lookup p.1 := by
      intro c p hp
      refine AList.lookup_insert_ne fun h => ha ?_
      rw [← h]
      exact List.mem_keys_of_mem hp
    rw [List.forall_mem_cons]
    unfold copyLoop
    split
    · rename_i hf
      rw [copyLoop_snd_eq_none hl]
      simp [hf]
    · rename_i c hf
      rw [copyLoop_snd_eq_none hl]
      simp only [hf]
      constructor
      · intro h
        exact ⟨by simp, fun p hp => by rw [← hkeep c p hp]; exact h p hp⟩
      · rintro ⟨-, h⟩ p hp
        rw [hkeep c p hp]
        exact h p hp
    · rename_i e hf
      simp [hf]

/-- The error that stops the loop is one of `f`. -/
theorem exists_of_copyLoop_snd_eq_some {e : ε} : ∀ {l : List (Sigma β)} {m : AList β}, (copyLoop f l m).2 = some e →
    ∃ a b o, f a b o = .error e
  | [], m, h => by cases h
  | ⟨a, b⟩ :: l, m, h => by
    unfold copyLoop at h
    split at h
    · exact exists_of_copyLoop_snd_eq_some h
    · exact exists_of_copyLoop_snd_eq_some h
    · rename_i e' hf
      cases h
      exact ⟨a, b, _, hf⟩

/-- With an error or without, a key keeps its value or has what `f` makes of its binding. -/
theorem lookup_copyLoop_cases {a : α} {b : β a} : ∀ {l : List (Sigma β)} {m : AList β}, l.NodupKeys →
    ⟨a, b⟩ ∈ l → (copyLoop f l m).1.lookup a = m.lookup a ∨
      ∃ c, f a b (m.lookup a) = .ok (some c) ∧ (copyLoop f l m).1.lookup a = some c
  | ⟨a', b'⟩ :: l, m, hnd, hmem => by
    have ha : a' ∉ l.keys := List.notMem_keys_of_nodupKeys_cons hnd
    have hl : l.NodupKeys := List.nodupKeys_of_nodupKeys_cons hnd
    rcases List.mem_cons.1 hmem with heq | hmem
    · cases heq
      unfold copyLoop
      split
      · exact Or.inl (lookup_copyLoop_of_notMem ha)
      · rename_i c hf
        refine Or.inr ⟨c, hf, ?_⟩
        rw [lookup_copyLoop_of_notMem ha, AList.lookup_insert]
      · exact Or.inl rfl
    · have hne : a ≠ a' := fun h => ha (h ▸ List.mem_keys_of_mem hmem)
      unfold copyLoop
      split
      · exact lookup_copyLoop_cases hl hmem
      · rename_i c hf
        have h := lookup_copyLoop_cases (m := m.insert a' c) hl hmem
        rw [AList.lookup_insert_ne hne] at h
        exact h
      · exact Or.inl rfl

/-- Without an error, every key of `l` has what `f` makes of its binding. -/
theorem lookup_copyLoop {a : α} {b : β a} : ∀ {l : List (Sigma β)} {m : AList β}, l.NodupKeys →
    (copyLoop f l m).2 = none → ⟨a, b⟩ ∈ l →
    ∃ o, f a b (m.lookup a) = .ok o ∧ (copyLoop f l m).1.lookup a = o.or (m.lookup a)
  | ⟨a', b'⟩ :: l, m, hnd, herr, hmem => by
    have ha : a' ∉ l.keys := List.notMem_keys_of_nodupKeys_cons hnd
    have hl : l.NodupKeys := List.nodupKeys_of_nodupKeys_cons hnd
    rcases List.mem_cons.1 hmem with heq | hmem
    · cases heq
      revert herr
      unfold copyLoop
      split
      · rename_i hf
        exact fun _ => ⟨none, hf, lookup_copyLoop_of_notMem ha⟩
      · rename_i c hf
        refine fun _ => ⟨some c, hf, ?_⟩
        rw [lookup_copyLoop_of_notMem ha, AList.lookup_insert]
        rfl
      · exact nofun
    · have hne : a ≠ a' := fun h => ha (h ▸ List.mem_keys_of_mem hmem)
      revert herr
      unfold copyLoop
      split
      · exact fun herr => lookup_copyLoop hl herr hmem
      · rename_i c hf
        intro herr
        have h := lookup_copyLoop (m := m.insert a' c) hl herr hmem
        rw [AList.lookup_insert_ne hne] at h
        exact h
      · exact nofun

/-- Every value is still there when the loop comes to it. -/
theorem copyLive_eq : ∀ {l : List (Sigma β)} {m : AList β}, l.NodupKeys → (∀ p ∈ l, m.lookup p.1 = some p.2) →
    copyLive f l.keys m = copyLoop f l m
  | [], m, _, _ => rfl
  | ⟨a, b⟩ :: l, m, hnd, h => by
    have ha : a ∉ l.keys := List.notMem_keys_of_nodupKeys_cons hnd
    have hl : l.NodupKeys := List.nodupKeys_of_nodupKeys_cons hnd
    have hb : m.lookup a = some b := h ⟨a, b⟩ List.mem_cons_self
    have hrest : ∀ p ∈ l, m.lookup p.1 = some p.2 := fun p hp => h p (List.mem_cons_of_mem _ hp)
    have hkeep : ∀ c, ∀ p ∈ l, (m.insert a c).lookup p.1 = some p.2 := by
      intro c p hp
      have hne : p.1 ≠ a := fun hpa => ha (hpa ▸ List.mem_keys_of_mem hp)
      rw [AList.lookup_insert_ne hne, hrest p hp]
    rw [List.keys_cons]
    simp only [copyLive, copyLoop, hb]
    cases f a b (some b) with
    | error e => rfl
    | ok o =>
      cases o with
      | none => exact copyLive_eq hl hrest
      | some c => exact copyLive_eq hl (hkeep c)

/-- A map copied into itself. -/
theorem copyLive_keys (m : AList β) : copyLive f m.keys m = copyLoop f m.entries m :=
  copyLive_eq m.nodupKeys fun _ hp => AList.mem_lookup_iff.2 hp

end

end Asgiref.Lib
