import Asgiref.Lib.Recency
import Asgiref.Server.Tasks

/-!
# Which instance is reclaimed

The docstring of `StatelessServer` says the least recently used one.  The code goes by readings of the clock, and by the
order of the table where two readings are equal.

* `Clocked`, `clocked` — the server with the calls of `get_or_create_application_instance` so far, under a clock whose
  readings never decrease;
* `State.oldestCalls` — the calls of `delete_oldest_application_instance` in a step; `makeRoom_eq_last`: the eviction loop
  is its calls;
* `State.deleteOldest_first` — `delete_oldest_application_instance` takes the first entry with the smallest reading;
* `Ordered` — readings follow the order of calls;
* `Untied` — no entry that stands before the least recently used one has its reading;
* `reclaims_iff_noTie` — when every call reclaims the least recently used instance.
-/

namespace Asgiref.Server

open Asgiref.Lib Asgiref.Python

variable {K Scope Time : Type} [DecidableEq K]

/-! ### What is reclaimed -/

/-- The instance of `k` is taken off the table, its task is cancelled unless it is done, and nothing else changes. -/
structure Evicted (t t' : State K Scope Time) (k : K) (d : Details Scope Time) : Prop where
  there : t.instances.lookup k = some d
  gone : t'.instances.lookup k = none
  others : ∀ k', k' ≠ k → t'.instances.lookup k' = t.instances.lookup k'
  cancelled : t'.tasks[d.future]? =
    t.tasks[d.future]?.map fun u => if u.outcome = none then { u with cancelled := true } else u
  tasks : ∀ n, n ≠ d.future → t'.tasks[n]? = t.tasks[n]?

/-- The most recent call for `k` lies before those for all other instances of the table. -/
def LeastRecent (used : List K) (t : State K Scope Time) (k : K) : Prop :=
  ∀ k' ∈ t.instances.keys, k' ≠ k → LastBefore used k k'

instance (used : List K) (t : State K Scope Time) (k : K) : Decidable (LeastRecent used t k) :=
  inferInstanceAs (Decidable (∀ k' ∈ t.instances.keys, _))

/-- Only one instance is the least recently used one. -/
theorem LeastRecent.unique {used : List K} {s : State K Scope Time} {k k' : K} (h : LeastRecent used s k)
    (h' : LeastRecent used s k') (hk : k ∈ s.instances.keys) (hk' : k' ∈ s.instances.keys) : k = k' := by
  by_contra hne
  exact (h k' hk' (Ne.symm hne)).asymm (h' k hk hne)

/-- Only one instance is reclaimed. -/
theorem Evicted.unique {t t' : State K Scope Time} {k k' : K} {d d' : Details Scope Time} (h : Evicted t t' k d)
    (h' : Evicted t t' k' d') : k = k' := by
  by_contra hne
  have hstays := h'.others k hne
  rw [h.gone, h.there] at hstays
  cases hstays

/-- The entries that stand before that of `k` in the table. -/
def State.before (t : State K Scope Time) (k : K) : List (Sigma fun _ : K => Details Scope Time) :=
  t.instances.entries.takeWhile fun p => p.1 ≠ k

namespace State

variable {s : State K Scope Time}

theorem before_eq {pre post : List (Sigma fun _ : K => Details Scope Time)} {q : Sigma fun _ : K => Details Scope Time}
    (h : s.instances.entries = pre ++ q :: post) : s.before q.1 = pre := by
  have hnd : (pre ++ q :: post).NodupKeys := h ▸ s.instances.nodupKeys
  have hne : ∀ p ∈ pre, decide (p.1 ≠ q.1) = true := by
    intro p hp
    refine decide_eq_true fun hkey => ?_
    rw [List.NodupKeys, List.keys, List.map_append, List.nodup_append] at hnd
    exact hnd.2.2 p.1 (List.mem_map_of_mem hp) q.1 (by simp) hkey
  rw [before, h, List.takeWhile_append_of_pos hne]
  simp

theorem evicted_remove_cancel {k : K} {d : Details Scope Time} (h : s.instances.lookup k = some d) :
    Evicted s ((s.remove k).cancel d.future) k d where
  there := h
  gone := by simp
  others k' hk := by simp [hk]
  cancelled := by
    rw [tasks_cancel]
    show s.tasks[d.future]?.map _ = _
    simp
  tasks n hn := by
    rw [tasks_cancel]
    show s.tasks[n]?.map _ = _
    simp [hn]

end State

/-- Every entry of the one table is one of the other. -/
def State.Within (s' s : State K Scope Time) : Prop :=
  ∀ k d, s'.instances.lookup k = some d → s.instances.lookup k = some d

theorem within_remove (s : State K Scope Time) (k : K) : (s.remove k).Within s := by
  intro k' d hd
  rw [State.lookup_remove] at hd
  split at hd
  · cases hd
  · exact hd

theorem within_evict (s : State K Scope Time) (k : K) (n : Nat) : ((s.remove k).cancel n).Within s := by
  intro k' d hd
  rw [State.cancel_instances] at hd
  exact within_remove s k k' d hd

variable [LinearOrder Time]

/-- **A call of `delete_oldest_application_instance`** on a table that is not empty reclaims the least recently used
instance. -/
def EvictsLeastRecent (used : List K) (t : State K Scope Time) : Prop :=
  t.instances.length ≠ 0 → ∃ k d, Evicted t t.deleteOldestApplicationInstance.1 k d ∧ LeastRecent used t k

/-- **The condition on a call**: no entry that stands before the least recently used one has its reading. -/
def Untied (used : List K) (t : State K Scope Time) : Prop :=
  ∀ q ∈ t.instances.entries, LeastRecent used t q.1 → ∀ p ∈ t.before q.1, p.2.lastUsed ≠ q.2.lastUsed

instance (used : List K) (t : State K Scope Time) : Decidable (Untied used t) :=
  inferInstanceAs (Decidable (∀ q ∈ t.instances.entries, _ → ∀ p ∈ t.before q.1, _))

/-! ### The calls -/

namespace State

/-- The states in which the eviction loop of `get_or_create_application_instance` calls it, in at most `n` rounds. -/
def roomCalls : Nat → State K Scope Time → List (State K Scope Time)
  | 0, _ => []
  | n + 1, s =>
    if (s.instances.length : Int) > s.maxApplications then
      s :: match s.deleteOldestApplicationInstance with
        | (s', .ok ()) => roomCalls n s'
        | (_, .error _) => []
    else []

/-- The eviction loop leaves what its last call leaves. -/
theorem makeRoom_eq_last (n : Nat) (s : State K Scope Time) :
    s.makeRoom n = ((s.roomCalls n).getLast?.map deleteOldestApplicationInstance).getD (s, .ok ()) := by
  induction n generalizing s with
  | zero => rfl
  | succ n ih =>
    rw [makeRoom, roomCalls]
    split
    · rcases hs : s.deleteOldestApplicationInstance with ⟨s', r⟩
      cases r with
      | error e => exact hs.symm
      | ok u =>
        show s'.makeRoom n = _
        rw [ih s', List.getLast?_cons]
        cases (s'.roomCalls n).getLast? with
        | none => exact hs.symm
        | some t => rfl
    · rfl

/-- The states in which a step calls `delete_oldest_application_instance`. -/
def oldestCalls (s : State K Scope Time) : Action K Scope Time → List (State K Scope Time)
  | .deleteOldest => [s]
  | .getOrCreate scopeId _ _ _ =>
    match s.instances.lookup scopeId with
    | some _ => []
    | none => s.roomCalls (s.instances.length + 1)
  | _ => []

end State

/-- A server, the `scope_id`s that `get_or_create_application_instance` was called with, and the last reading of the
clock. -/
structure Clocked (K Scope Time : Type) where
  server : State K Scope Time
  used : List K
  clock : Option Time

def Clocked.init (maxApplications : Int) : Clocked K Scope Time := ⟨State.init maxApplications, [], none⟩

def Clocked.step (x : Clocked K Scope Time) (a : Action K Scope Time) : Option (Clocked K Scope Time) :=
  match a with
  | .getOrCreate scopeId _ now _ =>
    if ∀ t ∈ x.clock, t ≤ now then
      (Server.step x.server a).map fun s => ⟨s, x.used ++ [scopeId], some now⟩
    else none
  | _ => (Server.step x.server a).map fun s => { x with server := s }

/-- The server under a clock whose readings never decrease. -/
def clocked : Machine (Clocked K Scope Time) (Action K Scope Time) := ⟨Clocked.step⟩

/-- Each call that a step makes reclaims the least recently used instance. -/
def Reclaims (x : Clocked K Scope Time) (a : Action K Scope Time) (_x' : Clocked K Scope Time) : Prop :=
  ∀ t ∈ x.server.oldestCalls a, EvictsLeastRecent x.used t

/-- **The condition on a step.** -/
def NoTie (x : Clocked K Scope Time) (a : Action K Scope Time) : Prop := ∀ t ∈ x.server.oldestCalls a, Untied x.used t

instance (x : Clocked K Scope Time) (a : Action K Scope Time) : Decidable (NoTie x a) :=
  inferInstanceAs (Decidable (∀ t ∈ x.server.oldestCalls a, _))

/-! ### The entry that is taken -/

/-- **The entry that is taken** is the first one with the smallest reading. -/
theorem State.deleteOldest_first {s : State K Scope Time} (hne : s.instances.length ≠ 0) : ∃ pre k d post,
    s.instances.entries = pre ++ ⟨k, d⟩ :: post ∧
    (∀ p ∈ s.instances.entries, d.lastUsed ≤ p.2.lastUsed) ∧ (∀ p ∈ pre, p.2.lastUsed ≠ d.lastUsed) ∧
    s.deleteOldestApplicationInstance = ((s.remove k).cancel d.future, .ok ()) := by
  unfold deleteOldestApplicationInstance
  cases hmin : (s.instances.entries.map fun p => p.2.lastUsed).min? with
  | none =>
    have hnil : s.instances.entries = [] := by simpa using hmin
    exact absurd (by simp [Dict.length, hnil]) hne
  | some oldestTime =>
    obtain ⟨hmem, hle⟩ := List.min?_eq_some_iff.1 hmin
    obtain ⟨p, hp, hlast⟩ := List.mem_map.1 hmem
    cases hfind : s.instances.entries.find? fun p => decide (p.2.lastUsed = oldestTime) with
    | none => exact absurd hlast (by simpa using List.find?_eq_none.1 hfind p hp)
    | some q =>
      obtain ⟨hq, pre, post, hentries, hpre⟩ := List.find?_eq_some_iff_append.1 hfind
      have hq : q.2.lastUsed = oldestTime := of_decide_eq_true hq
      have hlookup : s.instances.lookup q.1 = some q.2 :=
        Dict.mem_entries_iff.1 (by rw [hentries]; simp)
      refine ⟨pre, q.1, q.2, post, hentries, fun p hp => ?_, fun p hp hsame => ?_, ?_⟩
      · rw [hq]
        exact hle _ (List.mem_map_of_mem hp)
      · have hnot := hpre p hp
        rw [hsame, hq] at hnot
        simp at hnot
      · simp only [hfind, deleteApplicationInstance_of_lookup hlookup]

/-! ### Readings and calls -/

/-- Every instance of the table was asked for, the readings follow the order of the most recent calls, and the clock has
not gone back since. -/
structure Ordered (used : List K) (clock : Option Time) (s : State K Scope Time) : Prop where
  asked : ∀ k d, s.instances.lookup k = some d → k ∈ used
  sorted : ∀ k d k' d', s.instances.lookup k = some d → s.instances.lookup k' = some d' → LastBefore used k k' →
    d.lastUsed ≤ d'.lastUsed
  clock : ∀ k d, s.instances.lookup k = some d → ∃ t, clock = some t ∧ d.lastUsed ≤ t

section

variable {used : List K} {clock : Option Time} {s s' : State K Scope Time}

theorem Ordered.within (h : Ordered used clock s) (hw : s'.Within s) : Ordered used clock s' where
  asked k d hd := h.asked k d (hw k d hd)
  sorted k d k' d' hd hd' := h.sorted k d k' d' (hw k d hd) (hw k' d' hd')
  clock k d hd := h.clock k d (hw k d hd)

/-- In a table that is not empty some instance is the least recently used one. -/
theorem Ordered.exists_leastRecent (h : Ordered used clock s) {k : K} {d : Details Scope Time}
    (hd : s.instances.lookup k = some d) :
    ∃ k₀ d₀, s.instances.lookup k₀ = some d₀ ∧ LeastRecent used s k₀ := by
  have hfind : ∀ k' ∈ s.instances.keys, ∃ d', s.instances.lookup k' = some d' := fun k' hk' =>
    Option.isSome_iff_exists.1 (AList.lookup_isSome.2 (AList.mem_keys.2 hk'))
  have hasked : ∀ k' ∈ s.instances.keys, k' ∈ used := by
    intro k' hk'
    obtain ⟨d', hd'⟩ := hfind k' hk'
    exact h.asked k' d' hd'
  have hk : k ∈ s.instances.keys := AList.mem_keys.1 (AList.lookup_isSome.1 (by rw [hd]; rfl))
  obtain ⟨k₀, hk₀, hleast⟩ := Lib.exists_leastRecent (List.ne_nil_of_mem hk) hasked
  obtain ⟨d₀, hd₀⟩ := hfind k₀ hk₀
  exact ⟨k₀, d₀, hd₀, hleast⟩

/-- The table after a step that does not ask for an instance. -/
theorem within_of_step {a : Action K Scope Time} (hs : step s a = some s')
    (ha : ∀ k scope now app, a ≠ .getOrCreate k scope now app) : s'.Within s := by
  cases a with
  | getOrCreate k scope now app => exact absurd rfl (ha k scope now app)
  | delete k =>
    cases hs
    cases hk : s.instances.lookup k with
    | none =>
      rw [State.deleteApplicationInstance_of_none hk]
      exact fun _ _ hd => hd
    | some d =>
      rw [State.deleteApplicationInstance_of_lookup hk]
      exact within_evict s k d.future
  | deleteOldest =>
    cases hs
    obtain ⟨-, hs, -⟩ | ⟨k, d, -, hs⟩ := s.deleteOldestApplicationInstance_cases
    · rw [hs]
      exact fun _ _ hd => hd
    · rw [hs]
      exact within_evict s k d.future
  | finish n o =>
    obtain ⟨t, -, -, rfl⟩ := State.finish_eq_some.1 hs
    exact fun _ _ hd => hd
  | cancel n =>
    cases hs
    intro k d hd
    rwa [State.cancel_instances] at hd
  | startChecker =>
    cases hs
    exact fun _ _ hd => hd
  | wake | handled =>
    obtain ⟨i, c, rfl, -⟩ := step_of_checker hs trivial
    intro k d hd
    have hd := (State.lookup_removeAll ..).symm.trans hd
    split at hd
    · cases hd
    · exact hd
  | cancelChecker i =>
    simp only [step] at hs
    split at hs
    · cases hs
      exact fun _ _ hd => hd
    · cases hs
      exact fun _ _ hd => hd
    · cases hs

/-- An entry of the table after a call is the one the call was for, with the reading it made, or an old one. -/
theorem lookup_getOrCreate {k k' : K} {scope : Scope} {now : Time} {app : Option Exn} {d' : Details Scope Time}
    (h : (s.getOrCreateApplicationInstance k scope now app).1.instances.lookup k' = some d') :
    k' = k ∧ d'.lastUsed = now ∨ k' ≠ k ∧ s.instances.lookup k' = some d' := by
  cases hk : s.instances.lookup k with
  | some d =>
    simp only [State.getOrCreateApplicationInstance, hk, Dict.lookup_set] at h
    by_cases hkk : k' = k
    · rw [if_pos hkk] at h
      cases h
      exact .inl ⟨hkk, rfl⟩
    · rw [if_neg hkk] at h
      exact .inr ⟨hkk, h⟩
  | none =>
    obtain ⟨hwithin, hnone⟩ := State.makeRoom_induction
      (I := fun t => t.Within s ∧ t.instances.lookup k = none)
      (fun t k₀ d ht _ _ => ⟨fun k₁ d₁ h₁ => ht.1 k₁ d₁ (within_evict t k₀ d.future k₁ d₁ h₁), by simp [ht.2]⟩)
      (s.instances.length + 1) ⟨fun _ _ hd => hd, hk⟩
    have hold : ∀ t : State K Scope Time, t.Within s → t.instances.lookup k = none → t.instances.lookup k' = some d' →
        k' ≠ k ∧ s.instances.lookup k' = some d' := by
      intro t ht hnone hd
      refine ⟨?_, ht k' d' hd⟩
      rintro rfl
      rw [hnone] at hd
      cases hd
    simp only [State.getOrCreateApplicationInstance, hk] at h
    rcases hr : s.makeRoom (s.instances.length + 1) with ⟨t, e | _⟩ <;> rw [hr] at h hwithin hnone
    · exact .inr (hold t hwithin hnone h)
    · cases app with
      | some e => exact .inr (hold t hwithin hnone h)
      | none =>
        simp only [Dict.lookup_set] at h
        by_cases hkk : k' = k
        · rw [if_pos hkk] at h
          cases h
          exact .inl ⟨hkk, rfl⟩
        · rw [if_neg hkk] at h
          exact .inr (hold t hwithin hnone h)

/-- **A call** at a reading that is not before the last one. -/
theorem ordered_getOrCreate (h : Ordered used clock s) {now : Time} (hnow : ∀ t ∈ clock, t ≤ now) (k : K) (scope : Scope)
    (app : Option Exn) : Ordered (used ++ [k]) (some now) (s.getOrCreateApplicationInstance k scope now app).1 := by
  have hle : ∀ k' d', s.instances.lookup k' = some d' → d'.lastUsed ≤ now := by
    intro k' d' hd
    obtain ⟨t, ht, hdt⟩ := h.clock k' d' hd
    exact hdt.trans (hnow t ht)
  refine ⟨fun k' d' hd => ?_, fun k₁ d₁ k₂ d₂ hd₁ hd₂ hlast => ?_, fun k' d' hd => ⟨now, rfl, ?_⟩⟩
  · obtain ⟨rfl, -⟩ | ⟨-, hd⟩ := lookup_getOrCreate hd
    · simp
    · exact List.mem_append_left _ (h.asked k' d' hd)
  · obtain ⟨hne, hlast⟩ := lastBefore_concat.1 hlast
    obtain ⟨rfl, -⟩ | ⟨-, hd₁⟩ := lookup_getOrCreate hd₁
    · exact absurd rfl hne
    · obtain ⟨-, htime⟩ | ⟨hne₂, hd₂⟩ := lookup_getOrCreate hd₂
      · rw [htime]
        exact hle k₁ d₁ hd₁
      · exact h.sorted k₁ d₁ k₂ d₂ hd₁ hd₂ (hlast.resolve_left hne₂)
  · obtain ⟨-, htime⟩ | ⟨-, hd⟩ := lookup_getOrCreate hd
    · exact htime.le
    · exact hle k' d' hd

theorem ordered_step {x x' : Clocked K Scope Time} {a : Action K Scope Time}
    (h : Ordered x.used x.clock x.server) (hs : x.step a = some x') : Ordered x'.used x'.clock x'.server := by
  cases a with
  | getOrCreate k scope now app =>
    simp only [Clocked.step, Option.ite_none_right_eq_some, Option.map_eq_some_iff] at hs
    obtain ⟨hnow, s', hs, rfl⟩ := hs
    cases hs
    exact ordered_getOrCreate h hnow k scope app
  | _ =>
    simp only [Clocked.step, Option.map_eq_some_iff] at hs
    obtain ⟨s', hs, rfl⟩ := hs
    exact h.within (within_of_step hs fun _ _ _ _ => nofun)

/-- In the eviction loop the table only shrinks. -/
theorem within_of_roomCalls {n : Nat} {t : State K Scope Time} (ht : t ∈ s.roomCalls n) : t.Within s := by
  induction n generalizing s with
  | zero => cases ht
  | succ n ih =>
    rw [State.roomCalls] at ht
    split at ht
    · obtain rfl | ht := List.mem_cons.1 ht
      · exact fun _ _ hd => hd
      · obtain ⟨-, -, e, he⟩ | ⟨k, d, -, hs⟩ := s.deleteOldestApplicationInstance_cases
        · rw [show s.deleteOldestApplicationInstance = (s.deleteOldestApplicationInstance.1, .error e) from
            Prod.ext rfl he] at ht
          cases ht
        · rw [hs] at ht
          exact fun k' d' hd => within_evict s k d.future k' d' (ih ht k' d' hd)
    · cases ht

theorem within_of_oldestCalls {a : Action K Scope Time} {t : State K Scope Time} (ht : t ∈ s.oldestCalls a) :
    t.Within s := by
  unfold State.oldestCalls at ht
  split at ht
  · rw [List.mem_singleton.1 ht]
    exact fun _ _ hd => hd
  · split at ht
    · cases ht
    · exact within_of_roomCalls ht
  · cases ht

/-- **One call**: it reclaims the least recently used instance iff none that stands before it has its reading. -/
theorem evictsLeastRecent_iff (h : Ordered used clock s) : EvictsLeastRecent used s ↔ Untied used s := by
  by_cases hempty : s.instances.length = 0
  · have hnil : s.instances.entries = [] := List.length_eq_zero_iff.1 hempty
    refine iff_of_true (fun hne => absurd hempty hne) fun q hq => ?_
    rw [hnil] at hq
    cases hq
  obtain ⟨pre, k, d, post, hentries, hmin, hfirst, hdelete⟩ := State.deleteOldest_first hempty
  have hmem : (⟨k, d⟩ : Sigma fun _ : K => Details Scope Time) ∈ s.instances.entries := by
    rw [hentries]
    simp
  have hd : s.instances.lookup k = some d := Dict.mem_entries_iff.1 hmem
  have hbefore : s.before k = pre := State.before_eq hentries
  constructor
  · intro hevicts
    -- What is removed is the first entry with the smallest reading, so this one is the least recently used.
    obtain ⟨k', d', hevicted, hleast⟩ := hevicts hempty
    rw [hdelete] at hevicted
    obtain rfl : k' = k := hevicted.unique (State.evicted_remove_cancel hd)
    intro q hq hleastq
    have hqk : q.1 = k' := hleastq.unique hleast (List.mem_map_of_mem hq) (List.mem_map_of_mem hmem)
    have hqd : q.2 = d := by
      have hlookup := Dict.mem_entries_iff.1 hq
      rw [hqk, hd] at hlookup
      exact (Option.some.inj hlookup).symm
    rw [hqk, hqd, hbefore]
    exact hfirst
  · intro huntied _
    rw [hdelete]
    refine ⟨k, d, State.evicted_remove_cancel hd, ?_⟩
    -- The least recently used instance has the smallest reading, and nothing before it has.
    obtain ⟨k₀, d₀, hd₀, hleast⟩ := h.exists_leastRecent hd
    suffices hkk : k = k₀ by
      rw [hkk]
      exact hleast
    by_contra hne
    have hmem₀ : (⟨k₀, d₀⟩ : Sigma fun _ : K => Details Scope Time) ∈ s.instances.entries := Dict.mem_entries_iff.2 hd₀
    have htie : d.lastUsed = d₀.lastUsed :=
      le_antisymm (hmin _ hmem₀) (h.sorted k₀ d₀ k d hd₀ hd (hleast k (List.mem_map_of_mem hmem) hne))
    rw [hentries, List.mem_append, List.mem_cons] at hmem₀
    obtain hpre | heq | hpost := hmem₀
    · exact hfirst _ hpre htie.symm
    · exact hne (congrArg Sigma.fst heq).symm
    · obtain ⟨mid, rest, rfl⟩ := List.append_of_mem hpost
      have hsplit : s.instances.entries = (pre ++ ⟨k, d⟩ :: mid) ++ ⟨k₀, d₀⟩ :: rest := by
        rw [hentries]
        simp
      have hbefore₀ : s.before k₀ = pre ++ ⟨k, d⟩ :: mid := State.before_eq hsplit
      refine huntied ⟨k₀, d₀⟩ (Dict.mem_entries_iff.2 hd₀) hleast ⟨k, d⟩ ?_ htie
      rw [hbefore₀]
      simp

end

/-- **Least recently used.**  In every run under a clock that does not go back, each call of
`delete_oldest_application_instance` reclaims the instance whose most recent call lies earliest iff, at each call, no
instance that stands before this one in the table has the same reading. -/
theorem reclaims_iff_noTie {maxApplications : Int} {as : List (Action K Scope Time)}
    {x : Clocked K Scope Time} (hrun : clocked.run (Clocked.init maxApplications) as = some x) :
    clocked.Along Reclaims (Clocked.init maxApplications) as ↔ clocked.Meets NoTie (Clocked.init maxApplications) as := by
  refine clocked.along_iff_meets (K := fun x => Ordered x.used x.clock x.server) ?_ ?_ ?_ hrun
  · intro x a x' hx hC hs
    exact ⟨fun t ht => (evictsLeastRecent_iff (hx.within (within_of_oldestCalls ht))).2 (hC t ht), ordered_step hx hs⟩
  · intro x a x' hx hC hs hall
    refine hC fun t ht => ?_
    exact (evictsLeastRecent_iff (hx.within (within_of_oldestCalls ht))).1 (hall t ht)
  · exact ⟨nofun, nofun, nofun⟩

/-- Two instances are made, the first is asked for again, and one is reclaimed. -/
def reclaimed (second third : Nat) : List (Action Nat Unit Nat) :=
  [.getOrCreate 7 () 0 none, .getOrCreate 8 () second none, .getOrCreate 7 () third none, .deleteOldest]

theorem reclaims_reclaimed : clocked.Along Reclaims (Clocked.init 10) (reclaimed 0 1) :=
  (reclaims_iff_noTie rfl).2 (by decide)

/-- **Equal readings.**  Asked for again within one tick of the clock, the first instance still stands before the second, and
is reclaimed in its place. -/
theorem not_reclaims : ∃ x : Clocked Nat Unit Nat, clocked.run (Clocked.init 10) (reclaimed 0 0) = some x ∧
    x.server.instances.lookup 7 = none ∧ x.server.instances.lookup 8 ≠ none ∧ LastBefore x.used 8 7 ∧
    ¬ clocked.Along Reclaims (Clocked.init 10) (reclaimed 0 0) := by
  refine ⟨_, rfl, rfl, by decide, by decide, fun h => ?_⟩
  obtain ⟨k, d, hevicted, hleast⟩ := ((((h _ rfl).2 _ rfl).2 _ rfl).2 _ rfl).1 _ (.head _) (by decide)
  have h7 : k = 7 := by
    by_contra hne
    have hsame := hevicted.others 7 (Ne.symm hne)
    cases hsame
  subst h7
  exact absurd (hleast 8 (by decide) (by decide)) (by decide)

end Asgiref.Server
