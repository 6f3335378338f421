import Asgiref.Python.Basic
import Mathlib.Data.List.AList
import Mathlib.Logic.Function.Basic

/-!
# Contexts and non-thread-critical `Local`s

A `contextvars.Context` is a map from variables to values.  The variables are the user's, the three asgiref
declares, and for each `Local` the one behind its `_CVar`; the value of the latter is always a `_Storage`, so
values are typed by their variable.

* `Storage`, `rehome` — the thread-tagged storage of a `Local`;
* `Context.storage`, `getattr`, `setattr`, `delattr` — the methods of `_CVar`;
* `Context.Visible` — the value a thread can read;
* `Local.Name` — the names of attributes that a `Local` has for its user.
-/

namespace Asgiref

open Asgiref.Python

/-- A `Local` with `thread_critical=False`: the one asgiref keeps for itself, and the user's. -/
inductive LocalId where
  /-- `AsyncToSync.executors` -/
  | executors
  | user (n : Nat)
  deriving DecidableEq

/-- The context variables. -/
inductive Var where
  /-- A `ContextVar` of the user. -/
  | user (x : Nat)
  /-- `SyncToAsync.deadlock_context` -/
  | deadlockContext
  /-- `SyncToAsync.thread_sensitive_context` -/
  | threadSensitiveContext
  /-- `AsyncToSync.async_single_thread_context` -/
  | asyncSingleThreadContext
  /-- The variable `_data` of the `_CVar` of a `Local`. -/
  | data (l : LocalId)
  deriving DecidableEq

/-- `_Storage`: the attributes of a `Local`, tagged with the thread that owns them. -/
structure Storage (V : Type) where
  threadId : ThreadId
  data : String → Option V

/-- `_rehome(storage)` on the thread `tid`. -/
def rehome {V : Type} (tid : ThreadId) (st : Storage V) : Storage V := { st with threadId := tid }

@[simp] theorem threadId_rehome {V : Type} (tid : ThreadId) (st : Storage V) : (rehome tid st).threadId = tid := rfl
@[simp] theorem data_rehome {V : Type} (tid : ThreadId) (st : Storage V) : (rehome tid st).data = st.data := rfl

/-- The values a `Local` keeps under its attributes: `AsyncToSync.executors.current` is an executor or `None`. -/
abbrev LocalId.Attr (U : Type) : LocalId → Type
  | .executors => Option Nat
  | .user _ => U

/-- The values a variable can have; `U` are the user's, and context managers are known by their identity. -/
abbrev Var.Value (U : Type) : Var → Type
  | .user _ => U
  | .deadlockContext => Bool
  | .threadSensitiveContext | .asyncSingleThreadContext => Nat
  | .data l => Storage (l.Attr U)

/-- A `contextvars.Context`, with its bindings in the order in which Python iterates over them. -/
abbrev Context (U : Type) := AList (Var.Value U)

namespace Local

/-- The names that `Local.__setattr__` stores on the object itself. -/
def onObject : List String := ["_local", "_storage", "_thread_critical", "_thread_lock"]

/-- The names under which the code keeps its own parts: reading one gives such a part, and setting or deleting it
takes the part away.  What comes of this is not followed. -/
def ownParts : List String := ["_storage", "_thread_critical", "_thread_lock", "_data", "cvar"]

/-- A name that `Local` passes on to its storage, and under which the code keeps nothing. -/
def usable (key : String) : Bool := decide (key ∉ onObject) && decide (key ∉ ownParts)

/-- The names of attributes. -/
abbrev Name := { key : String // usable key = true }

end Local

namespace Context

variable {U : Type}

/-- `_data.get(None)` of the `_CVar` of `l`. -/
def data (c : Context U) (l : LocalId) : Option (Storage (l.Attr U)) := c.lookup (Var.data l)

/-- `_data.set(st)` of the `_CVar` of `l`. -/
def setData (c : Context U) (l : LocalId) (st : Storage (l.Attr U)) : Context U :=
  AList.insert (Var.data l) st c

/-- `_CVar._storage()`: the storage in the context, if it belongs to the current thread. -/
def storage (c : Context U) (tid : ThreadId) (l : LocalId) : Storage (l.Attr U) :=
  match c.data l with
  | none => ⟨tid, fun _ => none⟩
  | some st => if st.threadId ≠ tid then ⟨tid, fun _ => none⟩ else st

/-- `_CVar.__getattr__` -/
def getattr (c : Context U) (tid : ThreadId) (l : LocalId) (key : String) : Result (l.Attr U) :=
  match (c.storage tid l).data key with
  | some v => .ok v
  | none => .error .attributeError

/-- `_CVar.__setattr__` -/
def setattr (c : Context U) (tid : ThreadId) (l : LocalId) (key : String) (v : l.Attr U) : Context U :=
  c.setData l ⟨tid, Function.update (c.storage tid l).data key (some v)⟩

/-- `_CVar.__delattr__` -/
def delattr (c : Context U) (tid : ThreadId) (l : LocalId) (key : String) : Result (Context U) :=
  match (c.storage tid l).data key with
  | some _ => .ok (c.setData l ⟨tid, Function.update (c.storage tid l).data key none⟩)
  | none => .error .attributeError

/-- The attribute `key` of `l` reads as `v` on the thread `tid`. -/
def Visible (c : Context U) (tid : ThreadId) (l : LocalId) (key : String) (v : l.Attr U) : Prop :=
  c.getattr tid l key = .ok v

/-! ### What the methods read -/

@[simp] theorem data_setData (c : Context U) (l : LocalId) (st : Storage (l.Attr U)) :
    (c.setData l st).data l = some st := by
  unfold data setData
  exact AList.lookup_insert c

theorem lookup_setData_ne (c : Context U) {l : LocalId} {x : Var} (st : Storage (l.Attr U)) (h : x ≠ .data l) :
    (c.setData l st).lookup x = c.lookup x := by
  unfold setData
  exact AList.lookup_insert_ne h

theorem data_setData_ne (c : Context U) {l l' : LocalId} (st : Storage (l.Attr U)) (h : l' ≠ l) :
    (c.setData l st).data l' = c.data l' := lookup_setData_ne c st fun h' => h (Var.data.inj h')

theorem storage_of_data {c : Context U} {tid : ThreadId} {l : LocalId} {st : Storage (l.Attr U)}
    (h : c.data l = some st) (ht : st.threadId = tid) : c.storage tid l = st := by
  unfold storage
  rw [h]
  simp [ht]

theorem data_storage {c : Context U} {tid : ThreadId} {l : LocalId} {key : String} {v : l.Attr U} :
    (c.storage tid l).data key = some v ↔
      ∃ st, c.data l = some st ∧ st.threadId = tid ∧ st.data key = some v := by
  unfold storage
  cases h : c.data l with
  | none => simp
  | some st => by_cases ht : st.threadId = tid <;> simp [ht]

theorem visible_iff {c : Context U} {tid : ThreadId} {l : LocalId} {key : String} {v : l.Attr U} :
    c.Visible tid l key v ↔ ∃ st, c.data l = some st ∧ st.threadId = tid ∧ st.data key = some v := by
  rw [← data_storage]
  unfold Visible getattr
  cases (c.storage tid l).data key <;> simp

theorem visible_iff_storage {c : Context U} {tid : ThreadId} {l : LocalId} {key : String} {v : l.Attr U} :
    c.Visible tid l key v ↔ (c.storage tid l).data key = some v := visible_iff.trans data_storage.symm

/-! ### What the methods change -/

theorem storage_setData (c : Context U) (tid : ThreadId) (l : LocalId) (d : String → Option (l.Attr U)) :
    (c.setData l ⟨tid, d⟩).storage tid l = ⟨tid, d⟩ := storage_of_data (data_setData c l _) rfl

theorem storage_setData_ne (c : Context U) (tid : ThreadId) {l l' : LocalId} (st : Storage (l.Attr U)) (h : l' ≠ l) :
    (c.setData l st).storage tid l' = c.storage tid l' := by
  unfold storage
  rw [data_setData_ne c st h]

theorem delattr_eq_ok {c c' : Context U} {tid : ThreadId} {l : LocalId} {key : String} :
    c.delattr tid l key = .ok c' ↔ ((c.storage tid l).data key).isSome = true ∧
      c.setData l ⟨tid, Function.update (c.storage tid l).data key none⟩ = c' := by
  unfold delattr
  cases (c.storage tid l).data key <;> simp

/-- What can be read after a change of the attributes of one `Local`. -/
theorem visible_setData {c : Context U} {tid : ThreadId} {l l' : LocalId} {d : String → Option (l.Attr U)}
    {key : String} {v : l'.Attr U} (h : (c.setData l ⟨tid, d⟩).Visible tid l' key v) :
    (∃ e : l' = l, d key = some (e ▸ v)) ∨ l' ≠ l ∧ c.Visible tid l' key v := by
  by_cases hl : l' = l
  · subst hl
    rw [visible_iff_storage, storage_setData] at h
    exact .inl ⟨rfl, h⟩
  · rw [visible_iff_storage, storage_setData_ne c tid _ hl, ← visible_iff_storage] at h
    exact .inr ⟨hl, h⟩

end Context

end Asgiref
