import Asgiref.Lib.CopyLoop
import Asgiref.Local

/-!
# `_restore_context`

`restoreContext vars t context cur` is `_restore_context(context)` on the thread `t` with `cur` as the current
context: the new current context, and the exception that left the function, if one did.  `vars` is what the
`ContextVar`s of the user bring with them: their defaults, which `cvar.get()` returns where they are unbound, and the
`!=` of their values, which may raise.

* `restoreContext_snd_eq_none` — when no exception leaves the function;
* `lookup_restoreContext` — then every variable of `context` has its value there, re-homed to `t`, unless what
  `cvar.get()` returned before compared equal;
* `data_restoreContext` — a `Local` always has the storage of `context`, re-homed.
-/

namespace Asgiref.Sync

open Asgiref.Python Asgiref.Lib

/-- The `ContextVar`s of the user, whose values are in `U`. -/
structure UserVars (U : Type) where
  /-- `ContextVar(name, default=…)` -/
  default : Nat → Option U
  /-- `v != w`, and the truth value of what it yields. -/
  ne : U → U → Result Bool

section

variable {U : Type} (vars : UserVars U) (t : ThreadId)

/-- The value that is set: re-homed where it is a `_Storage`. -/
def carry : (x : Var) → x.Value U → x.Value U
  | .data _, st => rehome t st
  | .user _, v => v
  | .deadlockContext, v => v
  | .threadSensitiveContext, v => v
  | .asyncSingleThreadContext, v => v

/-- `cvar.get()`, from the binding in the current context; `none` where it raises `LookupError`. -/
def cvarGet : (x : Var) → Option (x.Value U) → Option (x.Value U)
  | .user n, o => o.or (vars.default n)
  | .deadlockContext, o => o
  | .threadSensitiveContext, o => o
  | .asyncSingleThreadContext, o => o
  | .data _, o => o

/-- `cvar.get() != cvalue`.  A `_Storage` is compared by identity, and `_rehome` has just made a new one. -/
def valueNe : (x : Var) → x.Value U → x.Value U → Result Bool
  | .user _, v, w => vars.ne v w
  | .deadlockContext, v, w => .ok (bne (α := Bool) v w)
  | .threadSensitiveContext, v, w => .ok (bne (α := Nat) v w)
  | .asyncSingleThreadContext, v, w => .ok (bne (α := Nat) v w)
  | .data _, _, _ => .ok true

/-- The body of the loop for one variable: the value to set, if one is to be set. -/
def restoreVar (x : Var) (cvalue : x.Value U) (current : Option (x.Value U)) : Result (Option (x.Value U)) :=
  match cvarGet vars x current with
  | none => .ok (some (carry t x cvalue))
  | some v =>
    match valueNe vars x v (carry t x cvalue) with
    | .ok true => .ok (some (carry t x cvalue))
    | .ok false => .ok none
    | .error e => if e.isLookupError then .ok (some (carry t x cvalue)) else .error e

/-- `_restore_context(context)` -/
def restoreContext (context cur : Context U) : Context U × Option Exn :=
  copyLoop (restoreVar vars t) context.entries cur

/-- Variables without a default that hold numbers. -/
def numbers : UserVars Nat := ⟨fun _ => none, fun v w => .ok (v != w)⟩

/-- Variables without a default that hold arrays with more than one element: testing what `!=` returns raises. -/
def arrays : UserVars Nat := ⟨fun _ => none, fun _ _ =>
  .error (.valueError "The truth value of an array with more than one element is ambiguous. Use a.any() or a.all()")⟩

/-- A comparison that raises what `except LookupError` does not catch. -/
def Raises (context cur : Context U) : Prop :=
  ∃ x v w e, context.lookup (.user x) = some v ∧ cvarGet vars (.user x) (cur.lookup (.user x)) = some w ∧
    vars.ne w v = .error e ∧ e.isLookupError = false

end

/-! ### One variable -/

section

variable {U : Type} {vars : UserVars U} {t : ThreadId}

/-- Only the user's variables have defaults. -/
theorem cvarGet_of_ne {x : Var} (hx : ∀ n, x ≠ .user n) (o : Option (x.Value U)) : cvarGet vars x o = o := by
  cases x with
  | user n => exact absurd rfl (hx n)
  | _ => rfl

/-- A variable that is left alone had a value that compared equal, or has it as its default. -/
theorem eq_of_restoreVar_eq_none {x : Var} {v : x.Value U} {o : Option (x.Value U)}
    (h : restoreVar vars t x v o = .ok none) :
    ∃ w, cvarGet vars x o = some w ∧ valueNe vars x w (carry t x v) = .ok false := by
  unfold restoreVar at h
  cases hget : cvarGet vars x o with
  | none =>
    rw [hget] at h
    cases h
  | some w =>
    refine ⟨w, rfl, ?_⟩
    simp only [hget] at h
    split at h
    · cases h
    · assumption
    · split at h <;> cases h

theorem restoreVar_eq_some {x : Var} {v c : x.Value U} {o : Option (x.Value U)}
    (h : restoreVar vars t x v o = .ok (some c)) : c = carry t x v := by
  unfold restoreVar at h
  split at h
  · cases h; rfl
  · split at h
    · cases h; rfl
    · cases h
    · split at h <;> cases h
      rfl

/-- Only the comparison of a user's value can raise. -/
theorem restoreVar_eq_error {x : Var} {v : x.Value U} {o : Option (x.Value U)} {e : Exn} :
    restoreVar vars t x v o = .error e ↔
      ∃ w, cvarGet vars x o = some w ∧ valueNe vars x w (carry t x v) = .error e ∧ e.isLookupError = false := by
  unfold restoreVar
  cases cvarGet vars x o with
  | none => simp
  | some w =>
    simp only [Option.some.injEq, exists_eq_left']
    cases h : valueNe vars x w (carry t x v) with
    | ok b => cases b <;> simp
    | error e' =>
      simp only [Except.error.injEq]
      cases he : e'.isLookupError with
      | true =>
        simp only [if_true]
        refine ⟨nofun, ?_⟩
        rintro ⟨rfl, he'⟩
        rw [he] at he'
        cases he'
      | false =>
        simp only [Bool.false_eq_true, if_false, Except.error.injEq]
        exact ⟨fun h => ⟨h, h ▸ he⟩, fun h => h.1⟩

end

/-! ### The whole loop -/

section

variable {U : Type} {vars : UserVars U} {t : ThreadId} {context cur : Context U}

/-- **When `_restore_context` ends normally.** -/
theorem restoreContext_snd_eq_none : (restoreContext vars t context cur).2 = none ↔ ¬ Raises vars context cur := by
  unfold restoreContext
  rw [copyLoop_snd_eq_none context.nodupKeys]
  constructor
  · rintro h ⟨x, v, w, e, hv, hw, hne, he⟩
    refine h ⟨.user x, v⟩ (AList.mem_lookup_iff.1 hv) e ?_
    exact restoreVar_eq_error.2 ⟨w, hw, hne, he⟩
  · rintro h ⟨x, v⟩ hx e herr
    obtain ⟨w, hw, hne, he⟩ := restoreVar_eq_error.1 herr
    cases x with
    | user x => exact h ⟨x, v, w, e, AList.mem_lookup_iff.2 hx, hw, hne, he⟩
    | _ => cases hne

/-- The exception is one that a comparison has raised. -/
theorem exists_of_restoreContext_snd_eq_some {e : Exn} (h : (restoreContext vars t context cur).2 = some e) :
    ∃ w v, vars.ne w v = .error e ∧ e.isLookupError = false := by
  obtain ⟨x, v, o, herr⟩ := exists_of_copyLoop_snd_eq_some h
  obtain ⟨w, -, hne, he⟩ := restoreVar_eq_error.1 herr
  cases x with
  | user n => exact ⟨w, v, hne, he⟩
  | _ => cases hne

theorem lookup_restoreContext_of_none {x : Var} (h : context.lookup x = none) :
    (restoreContext vars t context cur).1.lookup x = cur.lookup x :=
  lookup_copyLoop_of_notMem (AList.lookup_eq_none.1 h)

/-- **What `_restore_context` leaves.**  A variable of `context` has its value there; or it is as it was, where what
`cvar.get()` returned compared equal to that. -/
theorem lookup_restoreContext {x : Var} {v : x.Value U} (hr : ¬ Raises vars context cur)
    (h : context.lookup x = some v) :
    (restoreContext vars t context cur).1.lookup x = some (carry t x v) ∨
      ∃ w, cvarGet vars x (cur.lookup x) = some w ∧ valueNe vars x w (carry t x v) = .ok false ∧
        (restoreContext vars t context cur).1.lookup x = cur.lookup x := by
  obtain ⟨o, ho, hl⟩ := lookup_copyLoop (f := restoreVar vars t) context.nodupKeys
    (restoreContext_snd_eq_none.2 hr) (AList.mem_lookup_iff.1 h)
  cases o with
  | none =>
    obtain ⟨w, hw, hne⟩ := eq_of_restoreVar_eq_none ho
    exact Or.inr ⟨w, hw, hne, hl⟩
  | some c => exact Or.inl (by rw [← restoreVar_eq_some ho]; exact hl)

/-- A comparison that is not of user values tells different values apart. -/
theorem eq_of_valueNe {x : Var} {v w : x.Value U} (hx : ∀ n, x ≠ .user n) (h : valueNe vars x w v = .ok false) :
    w = v := by
  cases x with
  | user n => exact absurd rfl (hx n)
  | data l => cases h
  | _ => simpa [valueNe] using h

/-- A variable that is not the user's has its value, moved to the thread. -/
theorem lookup_restoreContext_of_ne {x : Var} {v : x.Value U} (hx : ∀ n, x ≠ .user n) (hr : ¬ Raises vars context cur)
    (h : context.lookup x = some v) : (restoreContext vars t context cur).1.lookup x = some (carry t x v) := by
  rcases lookup_restoreContext (t := t) hr h with hl | ⟨w, hw, hne, hl⟩
  · exact hl
  · rw [cvarGet_of_ne hx] at hw
    rw [hl, hw, eq_of_valueNe hx hne]

theorem data_restoreContext {l : LocalId} {st : Storage (l.Attr U)} (hr : ¬ Raises vars context cur)
    (h : context.data l = some st) :
    (restoreContext vars t context cur).1.data l = some (rehome t st) :=
  lookup_restoreContext_of_ne (by simp) hr h

/-- With an exception or without, a `Local` keeps its storage or has the one of `context`, re-homed. -/
theorem data_restoreContext_cases {l : LocalId} {st : Storage (l.Attr U)}
    (h : (restoreContext vars t context cur).1.data l = some st) :
    cur.data l = some st ∨ ∃ st', context.data l = some st' ∧ st = rehome t st' := by
  cases hc : context.data l with
  | none => exact Or.inl (by rw [← h]; exact (lookup_restoreContext_of_none hc).symm)
  | some st' =>
    rcases lookup_copyLoop_cases (f := restoreVar vars t) (m := cur) context.nodupKeys
      (AList.mem_lookup_iff.1 hc) with hl | ⟨c, hf, hl⟩
    · exact Or.inl (hl.symm.trans h)
    · refine Or.inr ⟨st', rfl, ?_⟩
      have hc' : st = c := Option.some.inj (h.symm.trans hl)
      rw [hc']
      exact restoreVar_eq_some hf

end

end Asgiref.Sync
