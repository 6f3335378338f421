import Asgiref.Sync.RestoreContext

/-!
# When `_restore_context` is exact

* `restoreOwn`: the function where it goes over the context it changes;
* `leaveCall`: the `finally` block of `AsyncToSync.__call__`;
* `Exact`, `HandsBack`: what its callers rely on; `TellsApart`: the condition on the comparisons;
* `exact_iff`: the function is exact, and the block hands the values back, iff the comparisons tell objects apart.
-/

namespace Asgiref.Sync

open Asgiref.Python Asgiref.Lib

section

variable {U : Type} (vars : UserVars U) (t : ThreadId)

/-- `_restore_context(context)` in `context` itself, as `SyncToAsync` calls it on the worker thread.  The iterator has
the variables of the start, the values are read as the loop comes to them. -/
def restoreOwn (cur : Context U) : Context U × Option Exn := copyLive (restoreVar vars t) cur.keys cur

/-- `_restore_context(context[0]); self.executors.current = old_executor` -/
def leaveCall (context cur : Context U) (oldExecutor : Option Nat) : Context U × Option Exn :=
  match restoreContext vars t context cur with
  | (c, none) => (c.setattr t .executors "current" oldExecutor, none)
  | (c, some e) => (c, some e)

end

section

variable {U : Type}

/-- The function has ended normally; each variable of `context` has that very object, or its storage re-homed, and the
others are as they were. -/
structure Exact (t : ThreadId) (context cur : Context U) (r : Context U × Option Exn) : Prop where
  total : r.2 = none
  bound : ∀ x v, context.lookup x = some v → r.1.lookup x = some (carry t x v)
  others : ∀ x, context.lookup x = none → r.1.lookup x = cur.lookup x

/-- The block has come to its end, and the caller reads what the wrapped function has set. -/
structure HandsBack (t : ThreadId) (context : Context U) (oldExecutor : Option Nat) (r : Context U × Option Exn) :
    Prop where
  reset : r.2 = none ∧ r.1.Visible t .executors "current" oldExecutor
  reads : ∀ x v, context.lookup (.user x) = some v → r.1.lookup (.user x) = some v

/-- The comparison of a value of the user with what the variable has raises a `LookupError` at most, and finds them equal
only where the variable is bound to that very object. -/
def TellsApart (vars : UserVars U) (context cur : Context U) : Prop :=
  ∀ x v w, context.lookup (.user x) = some v → cvarGet vars (.user x) (cur.lookup (.user x)) = some w →
    match vars.ne w v with
    | .ok true => True
    | .ok false => cur.lookup (.user x) = some v
    | .error e => e.isLookupError = true

variable {vars : UserVars U} {t : ThreadId} {context cur : Context U}

theorem restoreOwn_eq (cur : Context U) : restoreOwn vars t cur = restoreContext vars t cur cur :=
  copyLive_keys cur

/-- No variable makes the loop raise. -/
theorem total_of_tellsApart (h : TellsApart vars context cur) :
    (restoreContext vars t context cur).2 = none := by
  refine (copyLoop_snd_eq_none context.nodupKeys).2 ?_
  rintro ⟨x, v⟩ hx e herr
  obtain ⟨w, hw, hne, he⟩ := restoreVar_eq_error.1 herr
  cases x with
  | user n =>
    have hcond := h n v w (AList.mem_lookup_iff.2 hx) hw
    rw [show vars.ne w v = .error e from hne] at hcond
    rw [hcond] at he
    cases he
  | _ => cases hne

/-- The variables that the loop leaves alone are bound to that very object. -/
theorem bound_of_tellsApart (h : TellsApart vars context cur) {x : Var} {v : x.Value U}
    (hx : context.lookup x = some v) : (restoreContext vars t context cur).1.lookup x = some (carry t x v) := by
  obtain ⟨o, ho, hl⟩ := lookup_copyLoop (f := restoreVar vars t) context.nodupKeys
    (total_of_tellsApart h) (AList.mem_lookup_iff.1 hx)
  refine hl.trans ?_
  cases o with
  | some c => rw [restoreVar_eq_some ho, Option.some_or]
  | none =>
    obtain ⟨w, hw, hne⟩ := eq_of_restoreVar_eq_none ho
    rw [Option.none_or]
    cases x with
    | user n =>
      have hcond := h n v w hx hw
      rw [show vars.ne w v = .ok false from hne] at hcond
      exact hcond
    | _ =>
      rw [cvarGet_of_ne (by simp)] at hw
      rw [hw, eq_of_valueNe (by simp) hne]

theorem exact_of_tellsApart (h : TellsApart vars context cur) :
    Exact t context cur (restoreContext vars t context cur) where
  total := total_of_tellsApart h
  bound _ _ := bound_of_tellsApart h
  others _ hx := lookup_copyLoop_of_notMem (AList.lookup_eq_none.1 hx)

theorem tellsApart_of_exact (h : Exact t context cur (restoreContext vars t context cur)) :
    TellsApart vars context cur := by
  intro x v w hv hw
  have hmem : (⟨.user x, v⟩ : Sigma (Var.Value U)) ∈ context.entries := AList.mem_lookup_iff.1 hv
  cases hne : vars.ne w v with
  | error e =>
    cases he : e.isLookupError with
    | true => exact he
    | false =>
      exact absurd (restoreVar_eq_error.2 ⟨w, hw, hne, he⟩)
        ((copyLoop_snd_eq_none context.nodupKeys).1 h.total ⟨.user x, v⟩ hmem e)
  | ok b =>
    cases b with
    | true => trivial
    | false =>
      obtain ⟨o, ho, hl⟩ := lookup_copyLoop (f := restoreVar vars t) context.nodupKeys h.total hmem
      have hleft : restoreVar vars t (.user x) v (cur.lookup (.user x)) = .ok none := by
        simp only [restoreVar, hw, carry, valueNe, hne]
      cases hleft.symm.trans ho
      rw [Option.none_or] at hl
      exact hl.symm.trans (h.bound (.user x) v hv)

/-- Where they do not tell objects apart, one of them raises, or a variable of the user does not have its object. -/
theorem misses_of_not_tellsApart (h : ¬ TellsApart vars context cur) (t : ThreadId) :
    (∃ e, (restoreContext vars t context cur).2 = some e) ∨
      (restoreContext vars t context cur).2 = none ∧
        ∃ x v, context.lookup (.user x) = some v ∧ (restoreContext vars t context cur).1.lookup (.user x) ≠ some v := by
  cases hr : (restoreContext vars t context cur).2 with
  | some e => exact .inl ⟨e, rfl⟩
  | none =>
    refine .inr ⟨rfl, ?_⟩
    by_contra hall
    refine h (tellsApart_of_exact (t := t) ⟨hr, fun x v hv => ?_, fun x hx => lookup_restoreContext_of_none hx⟩)
    cases x with
    | user n => exact by_contra fun hne => hall ⟨n, v, hv, hne⟩
    | _ => exact lookup_restoreContext_of_ne (by simp) (restoreContext_snd_eq_none.1 hr) hv

theorem handsBack_of_exact (h : Exact t context cur (restoreContext vars t context cur))
    (oldExecutor : Option Nat) : HandsBack t context oldExecutor (leaveCall vars t context cur oldExecutor) := by
  have hleave : leaveCall vars t context cur oldExecutor =
      ((restoreContext vars t context cur).1.setattr t .executors "current" oldExecutor, none) := by
    unfold leaveCall
    split
    · next hr => rw [hr]
    · next hr =>
      have htotal := h.total
      rw [hr] at htotal
      cases htotal
  rw [hleave]
  refine ⟨⟨rfl, Context.visible_iff.2 ⟨_, Context.data_setData .., rfl, by simp⟩⟩, fun x v hv => ?_⟩
  exact (Context.lookup_setData_ne _ _ (by simp)).trans (h.bound (.user x) v hv)

/-- **When `_restore_context` is exact.**  It ends normally and leaves the very objects of `context`, and the `finally`
block of `AsyncToSync.__call__` hands them back, iff the comparisons tell objects apart; and so does the function where
it goes over the context that it changes. -/
theorem exact_iff (vars : UserVars U) (t : ThreadId) (context cur : Context U) :
    (Exact t context cur (restoreContext vars t context cur) ∧
        (∀ oldExecutor, HandsBack t context oldExecutor (leaveCall vars t context cur oldExecutor)) ↔
      TellsApart vars context cur) ∧
    (Exact t cur cur (restoreOwn vars t cur) ↔ TellsApart vars cur cur) := by
  refine ⟨⟨fun h => tellsApart_of_exact h.1, fun h => ?_⟩, ?_⟩
  · have hexact := exact_of_tellsApart (t := t) h
    exact ⟨hexact, handsBack_of_exact hexact⟩
  · rw [restoreOwn_eq]
    exact ⟨tellsApart_of_exact, exact_of_tellsApart⟩

end

/-- A context in which the variable 0 has the value. -/
def bindZero (v : Nat) : Context Nat := AList.insert (.user 0) v ∅

/-- **Values that are not restored.**  An array raises when it is compared, so that the old executor is not put back;
where 1 equals 2, the caller keeps the older one; and where 2 is the default, the variable stays unbound. -/
theorem not_exact :
    (∃ c e, leaveCall arrays 0 (bindZero 1) (bindZero 2) none = (c, some e)) ∧
    (leaveCall ⟨fun _ => none, fun _ _ => .ok false⟩ 0 (bindZero 1) (bindZero 2) none).1.lookup (.user 0) = some 2 ∧
    (restoreContext { numbers with default := fun _ => some 2 } 0 (bindZero 2) ∅).1.lookup (.user 0) = none :=
  ⟨⟨_, _, rfl⟩, rfl, rfl⟩

end Asgiref.Sync
