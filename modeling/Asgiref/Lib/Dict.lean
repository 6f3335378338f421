import Mathlib.Data.List.AList

/-!
# Insertion-ordered dictionaries

Mathlib's `AList` puts a new key in front.  `set` is the assignment of a dictionary that keeps its keys in
the order of their insertion: a key that is there keeps its place, a new one goes to the end.

* `lookup_set`, `lookup_erase`: the laws of assignment and deletion, and what both do to the length;
* `push`: a dictionary of lists, where a key that is not there counts as an empty list;
* `assignAll`: the loop that assigns the items of one dictionary to another (`lookup_assignAll`).
-/

namespace Asgiref.Lib

universe u v

/-- A dictionary with keys in the order of their insertion. -/
abbrev Dict (K : Type u) (V : Type v) := AList fun _ : K => V

namespace Dict

variable {K : Type u} {V : Type v}

/-- `len(d)` -/
def length (d : Dict K V) : Nat := d.entries.length

@[simp] theorem length_empty : (∅ : Dict K V).length = 0 := rfl

variable [DecidableEq K]

/-- `d[k] = v` -/
def set (d : Dict K V) (k : K) (v : V) : Dict K V :=
  if h : k ∈ d then d.replace k v
  else ⟨d.entries ++ [⟨k, v⟩], by
    rw [List.NodupKeys, List.keys, List.map_append, List.nodup_append]
    refine ⟨d.nodupKeys, by simp, ?_⟩
    rintro a ha b hb rfl
    simp only [List.map_cons, List.map_nil, List.mem_singleton] at hb
    exact h (hb ▸ ha)⟩

/-- `del d[k]`, where nothing happens to a dictionary without `k`. -/
def erase (d : Dict K V) (k : K) : Dict K V := AList.erase k d

/-! ### Lookup -/

theorem kreplace_cons_self (l : List (Sigma fun _ : K => V)) (k : K) (v w : V) :
    List.kreplace k v (⟨k, w⟩ :: l) = ⟨k, v⟩ :: l := List.lookmap_cons_some _ _ (by simp)

theorem kreplace_cons_ne {k k₀ : K} (h : k ≠ k₀) (l : List (Sigma fun _ : K => V)) (v w : V) :
    List.kreplace k v (⟨k₀, w⟩ :: l) = ⟨k₀, w⟩ :: List.kreplace k v l := List.lookmap_cons_none _ _ (by simp [h])

theorem dlookup_kreplace (l : List (Sigma fun _ : K => V)) (k k' : K) (v : V) :
    List.dlookup k' (List.kreplace k v l) =
      if k' = k then (List.dlookup k' l).map fun _ => v else List.dlookup k' l := by
  induction l with
  | nil => simp [List.kreplace]
  | cons p l ih =>
    obtain ⟨k₀, v₀⟩ := p
    by_cases hk : k = k₀
    · subst hk
      rw [kreplace_cons_self]
      by_cases hk' : k' = k
      · subst hk'
        simp
      · rw [if_neg hk', List.dlookup_cons_ne _ _ hk', List.dlookup_cons_ne _ _ hk']
    · rw [kreplace_cons_ne hk]
      by_cases hk' : k' = k₀
      · subst hk'
        simp [Ne.symm hk]
      · rw [List.dlookup_cons_ne _ _ hk', List.dlookup_cons_ne _ _ hk', ih]

theorem lookup_set (d : Dict K V) (k k' : K) (v : V) :
    (d.set k v).lookup k' = if k' = k then some v else d.lookup k' := by
  by_cases hk : k ∈ d
  · rw [set, dif_pos hk]
    refine (dlookup_kreplace d.entries k k' v).trans ?_
    by_cases hk' : k' = k
    · subst hk'
      obtain ⟨w, hw⟩ := Option.isSome_iff_exists.1 (AList.lookup_isSome.2 hk)
      rw [if_pos rfl, if_pos rfl, show List.dlookup k' d.entries = some w from hw, Option.map_some]
    · rw [if_neg hk', if_neg hk']
      rfl
  · rw [set, dif_neg hk]
    have hnone : List.dlookup k d.entries = none := AList.lookup_eq_none.2 hk
    refine (List.dlookup_append d.entries [⟨k, v⟩] k').trans ?_
    by_cases hk' : k' = k
    · subst hk'
      rw [hnone, if_pos rfl]
      simp
    · rw [if_neg hk', List.dlookup_cons_ne _ _ hk', List.dlookup_nil, Option.or_none]
      rfl

@[simp] theorem lookup_set_self (d : Dict K V) (k : K) (v : V) : (d.set k v).lookup k = some v := by
  rw [lookup_set, if_pos rfl]

theorem lookup_set_ne {k k' : K} (h : k' ≠ k) (d : Dict K V) (v : V) : (d.set k v).lookup k' = d.lookup k' := by
  rw [lookup_set, if_neg h]

theorem lookup_erase (d : Dict K V) (k k' : K) :
    (d.erase k).lookup k' = if k' = k then none else d.lookup k' := by
  by_cases h : k' = k
  · subst h
    rw [if_pos rfl, erase, AList.lookup_erase]
  · rw [if_neg h, erase, AList.lookup_erase_ne h]

theorem mem_entries_iff {d : Dict K V} {p : Sigma fun _ : K => V} : p ∈ d.entries ↔ d.lookup p.1 = some p.2 :=
  AList.mem_lookup_iff.symm

/-! ### Length -/

theorem length_set_of_mem {d : Dict K V} {k : K} (h : k ∈ d) (v : V) : (d.set k v).length = d.length := by
  have hkeys : (AList.replace k v d).keys.length = d.keys.length := by rw [AList.keys_replace]
  rw [set, dif_pos h]
  simpa only [length, AList.keys, List.keys, List.length_map] using hkeys

theorem length_set_of_notMem {d : Dict K V} {k : K} (h : k ∉ d) (v : V) :
    (d.set k v).length = d.length + 1 := by
  rw [set, dif_neg h, length, length, List.length_append, List.length_singleton]

theorem length_erase_of_mem {d : Dict K V} {k : K} (h : k ∈ d) : (d.erase k).length + 1 = d.length := by
  obtain ⟨v, l₁, l₂, -, hl, he⟩ := List.exists_of_kerase h
  have hlen : (d.erase k).entries = l₁ ++ l₂ := he
  rw [length, length, hlen, hl, List.length_append, List.length_append, List.length_cons]
  omega

theorem length_erase_le (d : Dict K V) (k : K) : (d.erase k).length ≤ d.length :=
  (List.kerase_sublist k d.entries).length_le

/-! ### Dictionaries of lists -/

/-- `d[k]` of a `defaultdict(list)`. -/
def getList (d : Dict K (List V)) (k : K) : List V := (d.lookup k).getD []

/-- `d[k].append(v)` of a `defaultdict(list)`. -/
def push (d : Dict K (List V)) (k : K) (v : V) : Dict K (List V) := d.set k (d.getList k ++ [v])

@[simp] theorem getList_empty (k : K) : (∅ : Dict K (List V)).getList k = [] := rfl

theorem getList_push (d : Dict K (List V)) (k k' : K) (v : V) :
    (d.push k v).getList k' = if k' = k then d.getList k' ++ [v] else d.getList k' := by
  unfold push
  rw [getList, lookup_set]
  by_cases h : k' = k
  · subst h
    rw [if_pos rfl, if_pos rfl]
    rfl
  · rw [if_neg h, if_neg h]
    rfl

theorem mem_set {d : Dict K V} {k k' : K} {v : V} : k' ∈ d.set k v ↔ k' = k ∨ k' ∈ d := by
  rw [← AList.lookup_isSome, lookup_set, ← AList.lookup_isSome]
  by_cases h : k' = k
  · simp [h]
  · simp [h]

theorem mem_push {d : Dict K (List V)} {k k' : K} {v : V} : k' ∈ d.push k v ↔ k' = k ∨ k' ∈ d := mem_set

/-! ### One dictionary over another -/

variable {W : Type v}

/-- `for k, v in d.items(): e[k] = f(v)` -/
def assignAll (f : V → W) (d : Dict K V) (e : Dict K W) : Dict K W :=
  d.entries.foldl (fun e p => e.set p.1 (f p.2)) e

theorem lookup_foldl_set (f : V → W) (k : K) :
    ∀ {l : List (Sigma fun _ : K => V)} (e : Dict K W), l.NodupKeys →
      (l.foldl (fun e p => e.set p.1 (f p.2)) e).lookup k = ((List.dlookup k l).map f).or (e.lookup k)
  | [], e, _ => by simp
  | ⟨k₀, v⟩ :: l, e, hnd => by
    have hl : l.NodupKeys := List.nodupKeys_of_nodupKeys_cons hnd
    rw [List.foldl_cons, lookup_foldl_set f k _ hl]
    by_cases h : k = k₀
    · subst h
      have hnone : List.dlookup k l = none := List.dlookup_eq_none.2 (List.notMem_keys_of_nodupKeys_cons hnd)
      rw [hnone, lookup_set_self, List.dlookup_cons_eq]
      rfl
    · rw [lookup_set_ne h, List.dlookup_cons_ne _ _ h]

theorem lookup_assignAll (f : V → W) (d : Dict K V) (e : Dict K W) (k : K) :
    (d.assignAll f e).lookup k = ((d.lookup k).map f).or (e.lookup k) := lookup_foldl_set f k e d.nodupKeys

theorem lookup_assignAll_of_notMem {d : Dict K V} {k : K} (h : k ∉ d) (f : V → W) (e : Dict K W) :
    (d.assignAll f e).lookup k = e.lookup k := by
  rw [lookup_assignAll, AList.lookup_eq_none.2 h]
  rfl

end Dict

end Asgiref.Lib
