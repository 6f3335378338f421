import Asgiref.Server.StatelessServer

/-!
# The capacity of the server

The eviction loop of `get_or_create_application_instance` runs while there are more than `max_applications`
instances, and one is added after it.

* `length_le_succ`: the table holds `max_applications + 1` entries at most, in every run;
* `evicts_only_for_new`: an instance is evicted only for a new `scope_id`, and only beyond `max_applications`;
* `withinCapacity_iff_notFull`: the table stays within `max_applications` in exactly those runs where no new
  `scope_id` is asked for while there are `max_applications` instances.
-/

namespace Asgiref.Server

open Asgiref.Lib Asgiref.Python

variable {K Scope Time : Type} [DecidableEq K]

namespace State

/-! ### The steps that take entries away -/

theorem length_remove_le (s : State K Scope Time) (k : K) : (s.remove k).instances.length ≤ s.instances.length :=
  Dict.length_erase_le ..

theorem length_remove_of_lookup {s : State K Scope Time} {k : K} {d : Details Scope Time}
    (h : s.instances.lookup k = some d) : (s.remove k).instances.length + 1 = s.instances.length :=
  Dict.length_erase_of_mem (AList.lookup_isSome.1 (by rw [h]; rfl))

@[simp] theorem maxApplications_remove (s : State K Scope Time) (k : K) :
    (s.remove k).maxApplications = s.maxApplications := rfl

theorem sweep_shrinks (l : List (K × Nat)) (s : State K Scope Time) :
    (s.sweep l).1.instances.length ≤ s.instances.length ∧ (s.sweep l).1.maxApplications = s.maxApplications := by
  induction l generalizing s with
  | nil => exact ⟨le_rfl, rfl⟩
  | cons p l ih =>
    obtain ⟨k, n⟩ := p
    have hremove : (sweep l (s.remove k)).1.instances.length ≤ s.instances.length ∧
        (sweep l (s.remove k)).1.maxApplications = s.maxApplications :=
      ⟨(ih (s.remove k)).1.trans (s.length_remove_le k), (ih (s.remove k)).2⟩
    rw [sweep]
    cases s.outcome n with
    | none => exact ih s
    | some o =>
      cases o with
      | returned => exact hremove
      | cancelled => exact ⟨le_rfl, rfl⟩
      | raised e truth =>
        obtain e' | b := truth
        · exact ⟨le_rfl, rfl⟩
        · cases b with
          | true => exact ⟨le_rfl, rfl⟩
          | false => exact hremove

theorem deleteApplicationInstance_shrinks (s : State K Scope Time) (k : K) :
    (s.deleteApplicationInstance k).1.instances.length ≤ s.instances.length ∧
      (s.deleteApplicationInstance k).1.maxApplications = s.maxApplications := by
  cases hk : s.instances.lookup k with
  | none => rw [deleteApplicationInstance_of_none hk]; exact ⟨le_rfl, rfl⟩
  | some d =>
    rw [deleteApplicationInstance_of_lookup hk]
    exact ⟨by simpa using s.length_remove_le k, by simp⟩

variable [LinearOrder Time]

/-! ### The eviction loop -/

/-- Within the capacity the loop does nothing. -/
theorem makeRoom_of_le {s : State K Scope Time} (h : (s.instances.length : Int) ≤ s.maxApplications) (n : Nat) :
    s.makeRoom n = (s, .ok ()) := by
  cases n with
  | zero => rfl
  | succ n => rw [makeRoom, if_neg (by omega)]

theorem maxApplications_makeRoom (s : State K Scope Time) (n : Nat) :
    (s.makeRoom n).1.maxApplications = s.maxApplications :=
  makeRoom_induction (I := fun t => t.maxApplications = s.maxApplications)
    (fun t k d ht _ _ => by simpa using ht) n rfl

/-- **The eviction loop ends** within the capacity, with one round for each entry and a last test. -/
theorem length_makeRoom {s : State K Scope Time} {n : Nat} (hn : s.instances.length < n)
    (hmax : 0 ≤ s.maxApplications) :
    (s.makeRoom n).2 = .ok () ∧ ((s.makeRoom n).1.instances.length : Int) ≤ s.maxApplications := by
  induction n generalizing s with
  | zero => omega
  | succ n ih =>
    by_cases hlen : (s.instances.length : Int) > s.maxApplications
    · rw [makeRoom, if_pos hlen]
      obtain ⟨hempty, -⟩ | ⟨k, d, hd, hs⟩ := s.deleteOldestApplicationInstance_cases
      · omega
      · have hstep := length_remove_of_lookup hd
        have := ih (s := (s.remove k).cancel d.future) (by simp; omega) (by simpa using hmax)
        rw [hs]
        simpa using this
    · rw [makeRoom_of_le (not_lt.1 hlen)]
      exact ⟨rfl, not_lt.1 hlen⟩

end State

variable [LinearOrder Time]

/-- **Evictions.**  An entry that `get_or_create_application_instance` takes away makes room for a new
`scope_id`, beyond `max_applications` instances. -/
theorem evicts_only_for_new {s : State K Scope Time} {k k' : K} {scope : Scope} {now : Time} {app : Option Exn}
    {d : Details Scope Time} (hd : s.instances.lookup k' = some d)
    (hgone : (s.getOrCreateApplicationInstance k scope now app).1.instances.lookup k' = none) :
    k ∉ s.instances ∧ s.maxApplications < s.instances.length := by
  cases hk : s.instances.lookup k with
  | some d₀ =>
    simp only [State.getOrCreateApplicationInstance, hk, Dict.lookup_set] at hgone
    by_cases hkk : k' = k
    · rw [if_pos hkk] at hgone
      cases hgone
    · rw [if_neg hkk, hd] at hgone
      cases hgone
  | none =>
    refine ⟨AList.lookup_eq_none.1 hk, ?_⟩
    by_contra hle
    have hne : k' ≠ k := by
      rintro rfl
      rw [hk] at hd
      cases hd
    simp only [State.getOrCreateApplicationInstance, hk, State.makeRoom_of_le (not_lt.1 hle)] at hgone
    cases app with
    | some e => simp [hd] at hgone
    | none => simp [Dict.lookup_set_ne hne, hd] at hgone

/-- What a step that adds no entry does to the bound. -/
theorem step_shrinks {s s' : State K Scope Time} {a : Action K Scope Time} (hs : step s a = some s')
    (ha : ∀ k scope now app, a ≠ .getOrCreate k scope now app) :
    s'.instances.length ≤ s.instances.length ∧ s'.maxApplications = s.maxApplications := by
  cases a with
  | getOrCreate k scope now app => exact absurd rfl (ha k scope now app)
  | delete k => cases hs; exact s.deleteApplicationInstance_shrinks k
  | deleteOldest =>
    cases hs
    obtain ⟨-, hs, -⟩ | ⟨k, d, hd, hs⟩ := s.deleteOldestApplicationInstance_cases
    · rw [hs]; exact ⟨le_rfl, rfl⟩
    · rw [hs, ← State.deleteApplicationInstance_of_lookup hd]; exact s.deleteApplicationInstance_shrinks k
  | finish n o => obtain ⟨t, -, -, rfl⟩ := State.finish_eq_some.1 hs; exact ⟨le_rfl, rfl⟩
  | cancel n => cases hs; simp
  | startChecker => cases hs; exact ⟨le_rfl, rfl⟩
  | wake i =>
    simp only [step] at hs
    split at hs
    · cases hs; exact State.sweep_shrinks s.snapshot s
    · cases hs
  | handled i r =>
    simp only [step] at hs
    split at hs
    · next k _ _ rest _ =>
      cases hs
      have hsweep := State.sweep_shrinks rest (s.remove k)
      exact ⟨hsweep.1.trans (s.length_remove_le k), hsweep.2⟩
    · cases hs; exact ⟨le_rfl, rfl⟩
    · cases hs
  | cancelChecker i =>
    simp only [step] at hs
    split at hs
    · cases hs; exact ⟨le_rfl, rfl⟩
    · cases hs; exact ⟨le_rfl, rfl⟩
    · cases hs

/-! ### The length of the table after a call -/

section Call

variable (s : State K Scope Time) (k : K) (scope : Scope) (now : Time) (app : Option Exn)

theorem maxApplications_getOrCreate :
    (s.getOrCreateApplicationInstance k scope now app).1.maxApplications = s.maxApplications := by
  have hmax := s.maxApplications_makeRoom (s.instances.length + 1)
  cases hk : s.instances.lookup k with
  | some d => simp only [State.getOrCreateApplicationInstance, hk]
  | none =>
    simp only [State.getOrCreateApplicationInstance, hk]
    rcases hr : s.makeRoom (s.instances.length + 1) with ⟨t, e | _⟩ <;> rw [hr] at hmax
    · exact hmax
    · cases app <;> exact hmax

variable {s k}

theorem length_getOrCreate_of_mem (h : k ∈ s.instances) :
    (s.getOrCreateApplicationInstance k scope now app).1.instances.length = s.instances.length := by
  obtain ⟨d, hd⟩ := Option.isSome_iff_exists.1 (AList.lookup_isSome.2 h)
  simp only [State.getOrCreateApplicationInstance, hd, Dict.length_set_of_mem h]

/-- Where nothing has to be evicted. -/
theorem length_getOrCreate_of_le (h : k ∉ s.instances) (hle : (s.instances.length : Int) ≤ s.maxApplications) :
    (s.getOrCreateApplicationInstance k scope now app).1.instances.length =
      if app = none then s.instances.length + 1 else s.instances.length := by
  simp only [State.getOrCreateApplicationInstance, AList.lookup_eq_none.2 h, State.makeRoom_of_le hle]
  cases app with
  | some e => rfl
  | none => exact Dict.length_set_of_notMem h _

theorem length_getOrCreate_le (hmax : 0 ≤ s.maxApplications) (hle : (s.instances.length : Int) ≤ s.maxApplications + 1) :
    ((s.getOrCreateApplicationInstance k scope now app).1.instances.length : Int) ≤ s.maxApplications + 1 := by
  by_cases hk : k ∈ s.instances
  · rw [length_getOrCreate_of_mem scope now app hk]
    exact hle
  · have hnone : s.instances.lookup k = none := AList.lookup_eq_none.2 hk
    have hroom := State.length_makeRoom (Nat.lt_succ_self s.instances.length) hmax
    have hkeep := State.makeRoom_induction (I := fun t => t.instances.lookup k = none)
      (fun t k' d ht _ hd => by simp [ht]) (s.instances.length + 1) hnone
    simp only [State.getOrCreateApplicationInstance, hnone]
    rcases hr : s.makeRoom (s.instances.length + 1) with ⟨t, e | _⟩ <;> rw [hr] at hroom hkeep
    · cases hroom.1
    · cases app with
      | some e => exact hroom.2.trans (by omega)
      | none =>
        have hset :
            (t.instances.set k { inputQueue := t.tasks.length, future := t.tasks.length, scope, lastUsed := now }).length =
            t.instances.length + 1 := Dict.length_set_of_notMem (AList.lookup_eq_none.1 hkeep) _
        have hlen : (t.instances.length : Int) ≤ s.maxApplications := hroom.2
        simp only [hset]
        push_cast
        omega

end Call

/-! ### Runs -/

/-- **The bound that holds**: one instance more than `max_applications`. -/
theorem length_le_succ {maxApplications : Int} (hmax : 0 ≤ maxApplications) {as : List (Action K Scope Time)}
    {s : State K Scope Time} (hrun : machine.run (State.init maxApplications) as = some s) :
    (s.instances.length : Int) ≤ maxApplications + 1 := by
  have h : s.maxApplications = maxApplications ∧ (s.instances.length : Int) ≤ maxApplications + 1 := by
    refine machine.run_invariant (I := fun s => s.maxApplications = maxApplications ∧
      (s.instances.length : Int) ≤ maxApplications + 1) ?_ ⟨rfl, by simp [State.init]; omega⟩ hrun
    rintro s a s' ⟨rfl, hle⟩ hs
    change step s a = some s' at hs
    cases a with
    | getOrCreate k scope now app =>
      cases hs
      exact ⟨maxApplications_getOrCreate s k scope now app, length_getOrCreate_le scope now app hmax hle⟩
    | _ =>
      have hshrink := step_shrinks hs (fun _ _ _ _ => nofun)
      exact ⟨hshrink.2, by omega⟩
  exact h.2

/-- **A step within the capacity.** -/
structure WithinCapacity (s : State K Scope Time) (a : Action K Scope Time) (s' : State K Scope Time) : Prop where
  length : (s'.instances.length : Int) ≤ s'.maxApplications
  /-- an entry is evicted only when a new `scope_id` is asked for and `max_applications` instances exist -/
  evicts : ∀ k scope now app, a = .getOrCreate k scope now app → ∀ k' d, s.instances.lookup k' = some d →
    s'.instances.lookup k' = none → k ∉ s.instances ∧ s.maxApplications ≤ s.instances.length

/-- **The condition on the calls.**  No instance is made for a new `scope_id` while there are exactly
`max_applications`. -/
def NotFull (s : State K Scope Time) : Action K Scope Time → Prop
  | .getOrCreate k _ _ none => k ∉ s.instances → (s.instances.length : Int) ≠ s.maxApplications
  | _ => True

instance (s : State K Scope Time) : ∀ a : Action K Scope Time, Decidable (NotFull s a)
  | .getOrCreate k _ _ none => inferInstanceAs (Decidable (k ∉ s.instances → _))
  | .getOrCreate _ _ _ (some _) => isTrue trivial
  | .delete _ | .deleteOldest | .finish .. | .cancel _ | .startChecker | .wake _ | .handled .. | .cancelChecker _ =>
    isTrue trivial

/-- **The capacity is kept** in exactly those runs where no instance is made while `max_applications` exist. -/
theorem withinCapacity_iff_notFull {maxApplications : Int} (hmax : 1 ≤ maxApplications)
    {as : List (Action K Scope Time)} {s : State K Scope Time}
    (hrun : machine.run (State.init maxApplications) as = some s) :
    machine.Along WithinCapacity (State.init maxApplications) as ↔
      machine.Meets NotFull (State.init maxApplications) as := by
  have hinit : ((State.init maxApplications : State K Scope Time).instances.length : Int) ≤ maxApplications := by
    simp [State.init]; omega
  refine machine.along_iff_meets (K := fun s => (s.instances.length : Int) ≤ s.maxApplications) ?_ ?_ hinit hrun
  · intro s a s' hle hC hs
    change step s a = some s' at hs
    suffices hlen : (s'.instances.length : Int) ≤ s'.maxApplications by
      refine ⟨⟨hlen, ?_⟩, hlen⟩
      rintro k scope now app rfl k' d hd hgone
      cases hs
      exact (evicts_only_for_new hd hgone).imp_right Int.le_of_lt
    cases a with
    | getOrCreate k scope now app =>
      cases hs
      rw [maxApplications_getOrCreate]
      by_cases hk : k ∈ s.instances
      · rwa [length_getOrCreate_of_mem scope now app hk]
      · rw [length_getOrCreate_of_le scope now app hk hle]
        cases app with
        | some e => simpa using hle
        | none =>
          have hne := hC hk
          rw [if_pos rfl]
          push_cast
          omega
    | _ =>
      have hshrink := step_shrinks hs (fun _ _ _ _ => nofun)
      omega
  · rintro s a s' hle hC hs ⟨hlen, -⟩
    change step s a = some s' at hs
    unfold NotFull at hC
    split at hC
    · next k scope now =>
      cases hs
      obtain ⟨hk, hfull⟩ := Classical.not_imp.1 hC
      rw [maxApplications_getOrCreate, length_getOrCreate_of_le scope now none hk hle, if_pos rfl] at hlen
      push_cast at hlen
      omega
    · exact hC trivial

/-- The second instance of a server for one is made without an eviction. -/
theorem capacity_exceeded : ∃ s : State Nat Unit Nat,
    machine.run (State.init 1) [.getOrCreate 7 () 0 none, .getOrCreate 8 () 1 none] = some s ∧
      s.maxApplications < s.instances.length := ⟨_, rfl, by decide⟩

/-- Two instances, one of which is deleted before a third is made. -/
theorem withinCapacity_of_deleted : machine.Along WithinCapacity (State.init 2 : State Nat Unit Nat)
    [.getOrCreate 7 () 0 none, .getOrCreate 8 () 1 none, .delete 7, .getOrCreate 9 () 2 none] :=
  (withinCapacity_iff_notFull (by decide) rfl).2 (by decide)

end Asgiref.Server
