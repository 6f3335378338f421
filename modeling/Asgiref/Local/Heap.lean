import Asgiref.Lib.Heap
import Asgiref.Lib.Machine
import Asgiref.Sync.RestoreContext

/-!
# `Local`s over shared dictionaries

The dictionary of a `_Storage` is a mutable object: copies of a context and `_rehome` share it by reference.  Here
every dictionary is a cell of a heap, and the methods of `_CVar` and `Local` copy, change and set as the code does,
line by line.

* `CVarId`, `HeapContext`, `State`: the `_CVar`s, contexts whose storages refer to cells, and the objects around them;
* `storage`, `getattr`, `setattr`, `delattr`: the methods of `_CVar`; `Local.getattr`, `.setattr`, `.delattr`: those
  of `Local`, for both kinds;
* `restoreRef`, `restorePlain`: one turn of the loop of `_restore_context`;
* `perform`, `machine`: any interleaving of these in any number of contexts and threads; `Performs`: what an action can
  do.

A name that normal lookup finds on the class, such as that of a method, never comes to `__getattr__`.
-/

namespace Asgiref.Local

open Asgiref.Python Asgiref.Lib Asgiref.Sync

/-- A `_CVar`: that of a `Local`, or the one a thread-critical `Local` keeps for a thread that runs a loop. -/
inductive CVarId where
  | shared (l : LocalId)
  | critical (n : Nat) (tid : ThreadId)
  deriving DecidableEq

/-- A `Local` of either kind. -/
inductive LocalRef where
  | shared (l : LocalId)
  /-- `Local(thread_critical=True)` -/
  | critical (n : Nat)
  deriving DecidableEq

abbrev CVarId.Attr (U : Type) : CVarId → Type
  | .shared l => l.Attr U
  | .critical _ _ => U

abbrev LocalRef.Attr (U : Type) : LocalRef → Type
  | .shared l => l.Attr U
  | .critical _ => U

/-- A context variable that is not that of a `_CVar`. -/
inductive PlainVar where
  | user (x : Nat)
  | deadlockContext
  | threadSensitiveContext
  | asyncSingleThreadContext
  deriving DecidableEq

def PlainVar.toVar : PlainVar → Var
  | .user x => .user x
  | .deadlockContext => .deadlockContext
  | .threadSensitiveContext => .threadSensitiveContext
  | .asyncSingleThreadContext => .asyncSingleThreadContext

/-- `_Storage`, with its dictionary by reference. -/
structure Ref where
  threadId : ThreadId
  address : Nat
  deriving DecidableEq

/-- A `contextvars.Context`. -/
structure HeapContext (U : Type) where
  plain : (x : PlainVar) → Option (x.toVar.Value U) := fun _ => none
  refs : CVarId → Option Ref := fun _ => none

abbrev ContextId := Nat

/-- The attributes in a dictionary. -/
abbrev Attrs (V : Type) := String → Option V

structure State (U : Type) where
  contexts : ContextId → Option (HeapContext U)
  /-- the dictionaries of each `_CVar` -/
  heap : (i : CVarId) → Heap (Attrs (i.Attr U)) := fun _ => {}
  /-- the `threading.local()` of a thread-critical `Local` -/
  threadLocal : Nat → ThreadId → Attrs U := fun _ _ _ => none
  /-- it has the attribute `cvar` on the thread -/
  hasCVar : Nat → ThreadId → Bool := fun _ _ => false
  /-- what `Local.__setattr__` has stored on the object itself -/
  object : (l : LocalRef) → Attrs (l.Attr U) := fun _ _ => none

section

variable {U : Type}

namespace State

variable (s : State U)

/-- One empty context. -/
def init : State U := { contexts := Function.update (fun _ => none) 0 (some {}) }

/-- The dictionary at the address. -/
def dict (i : CVarId) (a : Nat) : Attrs (i.Attr U) := ((s.heap i).read a).getD fun _ => none

/-- A new dictionary. -/
def allocDict (i : CVarId) (d : Attrs (i.Attr U)) : State U × Nat :=
  ({ s with heap := Function.update s.heap i ((s.heap i).alloc d).1 }, ((s.heap i).alloc d).2)

/-- The dictionary at the address is changed in place. -/
def writeDict (i : CVarId) (a : Nat) (d : Attrs (i.Attr U)) : State U :=
  { s with heap := Function.update s.heap i ((s.heap i).write a d) }

def setContext (c : ContextId) (x : HeapContext U) : State U :=
  { s with contexts := Function.update s.contexts c (some x) }

/-- `_data.set(st)` of the `_CVar`, in the context `c`. -/
def setRef (c : ContextId) (x : HeapContext U) (i : CVarId) (st : Ref) : State U :=
  s.setContext c { x with refs := Function.update x.refs i (some st) }

end State

/-! ### The methods of `_CVar` -/

variable (s : State U) (c : ContextId) (x : HeapContext U) (tid : ThreadId)

/-- `_CVar._storage()`: that in the context, if it belongs to the current thread, or a new one. -/
def storage (i : CVarId) : State U × Ref :=
  match x.refs i with
  | none => ((s.allocDict i fun _ => none).1, ⟨tid, (s.allocDict i fun _ => none).2⟩)
  | some st =>
    if st.threadId ≠ tid then ((s.allocDict i fun _ => none).1, ⟨tid, (s.allocDict i fun _ => none).2⟩) else (s, st)

/-- `_CVar.__getattr__` -/
def getattr (i : CVarId) (key : String) : State U × Result (i.Attr U) :=
  let (s₁, st) := storage s x tid i
  match s₁.dict i st.address key with
  | some v => (s₁, .ok v)
  | none => (s₁, .error .attributeError)

/-- `_CVar.__setattr__` -/
def setattr (i : CVarId) (key : String) (v : i.Attr U) : State U :=
  let (s₁, st) := storage s x tid i
  -- `data = self._storage().data.copy()`
  let (s₂, a) := s₁.allocDict i (s₁.dict i st.address)
  let s₃ := s₂.writeDict i a (Function.update (s₂.dict i a) key (some v))
  s₃.setRef c x i ⟨tid, a⟩

/-- `_CVar.__delattr__` -/
def delattr (i : CVarId) (key : String) : State U × Option Exn :=
  let (s₁, st) := storage s x tid i
  let (s₂, a) := s₁.allocDict i (s₁.dict i st.address)
  if (s₂.dict i a key).isSome then
    let s₃ := s₂.writeDict i a (Function.update (s₂.dict i a) key none)
    (s₃.setRef c x i ⟨tid, a⟩, none)
  else (s₂, some .attributeError)

/-! ### The methods of `Local` -/

/-- `self._storage.cvar`, made where the thread has none. -/
def State.ensureCVar (n : Nat) : State U :=
  { s with hasCVar := Function.update s.hasCVar n (Function.update (s.hasCVar n) tid true) }

def State.setThreadLocal (n : Nat) (d : Attrs U) : State U :=
  { s with threadLocal := Function.update s.threadLocal n (Function.update (s.threadLocal n) tid d) }

/-- What a read by `Local` gives; `running` says whether the thread runs a loop. -/
def readLocal (running : Bool) : (l : LocalRef) → String → State U × Result (l.Attr U)
  | .shared l, key =>
    match s.object (.shared l) key with
    | some v => (s, .ok v)
    | none => getattr s x tid (.shared l) key
  | .critical n, key =>
    match s.object (.critical n) key with
    | some v => (s, .ok v)
    | none =>
      if running then getattr (s.ensureCVar tid n) x tid (.critical n tid) key
      else
        match s.threadLocal n tid key with
        | some v => (s, .ok v)
        | none => (s, .error .attributeError)

/-- `Local.__setattr__` -/
def writeLocal (running : Bool) (l : LocalRef) (key : String) (v : l.Attr U) : State U :=
  if key ∈ onObject then
    { s with object := Function.update s.object l (Function.update (s.object l) key (some v)) }
  else
    match l, v with
    | .shared l, v => setattr s c x tid (.shared l) key v
    | .critical n, v =>
      if running then setattr (s.ensureCVar tid n) c x tid (.critical n tid) key v
      else s.setThreadLocal tid n (Function.update (s.threadLocal n tid) key (some v))

/-- `Local.__delattr__` -/
def deleteLocal (running : Bool) : (l : LocalRef) → String → State U × Option Exn
  | .shared l, key => delattr s c x tid (.shared l) key
  | .critical n, key =>
    if running then delattr (s.ensureCVar tid n) c x tid (.critical n tid) key
    else
      match s.threadLocal n tid key with
      | some _ => (s.setThreadLocal tid n (Function.update (s.threadLocal n tid) key none), none)
      | none => (s, some .attributeError)

/-! ### `_restore_context` -/

variable (vars : UserVars U)

/-- The loop at the variable of a `_CVar`: `_rehome` makes a new storage with the same dictionary, and it is set. -/
def restoreRef (i : CVarId) (st : Ref) : State U := s.setRef c x i ⟨tid, st.address⟩

/-- The loop at another variable. -/
def restorePlain (v : PlainVar) (w : v.toVar.Value U) : State U × Option Exn :=
  match restoreVar vars tid v.toVar w (x.plain v) with
  | .ok none => (s, none)
  | .ok (some w) => (s.setContext c { x with plain := Function.update x.plain v (some w) }, none)
  | .error e => (s, some e)

end

inductive Action (U : Type) where
  /-- A thread starts with an empty context. -/
  | start (new : ContextId)
  /-- A task, or a thread that inherits, gets a copy of the context `c`. -/
  | copy (c new : ContextId)
  /-- The user sets a `ContextVar`. -/
  | setVar (c : ContextId) (v : PlainVar) (w : v.toVar.Value U)
  | read (c : ContextId) (tid : ThreadId) (running : Bool) (l : LocalRef) (key : String)
  | write (c : ContextId) (tid : ThreadId) (running : Bool) (l : LocalRef) (key : String) (v : l.Attr U)
  | delete (c : ContextId) (tid : ThreadId) (running : Bool) (l : LocalRef) (key : String)
  /-- `_restore_context(context)` in the context `c` comes to the variable of a `_CVar`. -/
  | restoreRef (c context : ContextId) (tid : ThreadId) (i : CVarId)
  | restorePlain (c context : ContextId) (tid : ThreadId) (v : PlainVar)

/-- The context in which the code runs. -/
def Action.context {U : Type} : Action U → ContextId
  | .start c | .copy c _ | .setVar c _ _ | .read c _ _ _ _ | .write c _ _ _ _ _ | .delete c _ _ _ _
  | .restoreRef c _ _ _ | .restorePlain c _ _ _ => c

section

variable {U : Type} (vars : UserVars U)

/-- The state after the action, and the exception it raises, if it does. -/
def perform (s : State U) : Action U → Option (State U × Option Exn)
  | .start new => if (s.contexts new).isNone then some (s.setContext new {}, none) else none
  | .copy c new => do
    let x ← s.contexts c
    if (s.contexts new).isNone then some (s.setContext new x, none) else none
  | .setVar c v w => do
    let x ← s.contexts c
    some (s.setContext c { x with plain := Function.update x.plain v (some w) }, none)
  | .read c tid running l key => do
    let x ← s.contexts c
    if key ∈ ownParts then none
    else
      match readLocal s x tid running l key with
      | (s', .ok _) => some (s', none)
      | (s', .error e) => some (s', some e)
  | .write c tid running l key v => do
    let x ← s.contexts c
    if key ∈ ownParts then none else some (writeLocal s c x tid running l key v, none)
  | .delete c tid running l key => do
    let x ← s.contexts c
    if key ∈ ownParts then none else some (deleteLocal s c x tid running l key)
  | .restoreRef c context tid i => do
    let x ← s.contexts c
    let y ← s.contexts context
    let st ← y.refs i
    some (restoreRef s c x tid i st, none)
  | .restorePlain c context tid v => do
    let x ← s.contexts c
    let y ← s.contexts context
    let w ← y.plain v
    some (restorePlain s c x tid vars v w)

/-- Contexts and `Local`s in one process. -/
def machine : Machine (State U) (Action U) := ⟨fun s a => (perform vars s a).map Prod.fst⟩

/-- What code in the context `c` on the thread `tid` finds under the attribute. -/
def State.shows (s : State U) (c : ContextId) (tid : ThreadId) (l : LocalId) (key : String) :
    Option (Result (l.Attr U)) :=
  (s.contexts c).map fun x => (readLocal s x tid false (.shared l) key).2

/-! ### What an action can do -/

/-- The exception that a call ends with. -/
def raised {R : Type} : Result R → Option Exn
  | .ok _ => none
  | .error e => some e

/-- What the actions do, one constructor for each. -/
inductive Performs (s : State U) : Action U → State U → Option Exn → Prop where
  | start {new} : s.contexts new = none → Performs s (.start new) (s.setContext new {}) none
  | copy {c new x} : s.contexts c = some x → s.contexts new = none → Performs s (.copy c new) (s.setContext new x) none
  | setVar {c x} (v : PlainVar) (w : v.toVar.Value U) : s.contexts c = some x →
      Performs s (.setVar c v w) (s.setContext c { x with plain := Function.update x.plain v (some w) }) none
  | read {c tid running l key x} : s.contexts c = some x →
      Performs s (.read c tid running l key) (readLocal s x tid running l key).1
        (raised (readLocal s x tid running l key).2)
  | write {c tid running l key v x} : s.contexts c = some x →
      Performs s (.write c tid running l key v) (writeLocal s c x tid running l key v) none
  | delete {c tid running l key x} : s.contexts c = some x →
      Performs s (.delete c tid running l key) (deleteLocal s c x tid running l key).1
        (deleteLocal s c x tid running l key).2
  | restoreRef {c context tid i st x y} : s.contexts c = some x → s.contexts context = some y → y.refs i = some st →
      Performs s (.restoreRef c context tid i) (restoreRef s c x tid i st) none
  | restorePlain {c context tid x y} (v : PlainVar) (w : v.toVar.Value U) : s.contexts c = some x →
      s.contexts context = some y → y.plain v = some w →
      Performs s (.restorePlain c context tid v) (restorePlain s c x tid vars v w).1 (restorePlain s c x tid vars v w).2

variable {vars}

theorem performs_of_perform {s s' : State U} {a : Action U} {r : Option Exn} (h : perform vars s a = some (s', r)) :
    Performs vars s a s' r := by
  cases a with
  | start new =>
    simp only [perform, Option.ite_none_right_eq_some, Option.some.injEq, Prod.mk.injEq] at h
    obtain ⟨hnew, rfl, rfl⟩ := h
    exact .start (Option.isNone_iff_eq_none.1 hnew)
  | copy c new =>
    simp only [perform, Option.bind_eq_bind, Option.bind_eq_some_iff, Option.ite_none_right_eq_some, Option.some.injEq,
      Prod.mk.injEq] at h
    obtain ⟨x, hx, hnew, rfl, rfl⟩ := h
    exact .copy hx (Option.isNone_iff_eq_none.1 hnew)
  | setVar c v w =>
    simp only [perform, Option.bind_eq_bind, Option.bind_eq_some_iff, Option.some.injEq, Prod.mk.injEq] at h
    obtain ⟨x, hx, rfl, rfl⟩ := h
    exact .setVar v w hx
  | read c tid running l key =>
    simp only [perform, Option.bind_eq_bind, Option.bind_eq_some_iff, Option.ite_none_left_eq_some] at h
    obtain ⟨x, hx, -, h⟩ := h
    have hread : Performs vars s (.read c tid running l key) _ _ := .read hx
    split at h <;> cases h
    · next heq =>
      rw [heq] at hread
      exact hread
    · next heq =>
      rw [heq] at hread
      exact hread
  | write c tid running l key v =>
    simp only [perform, Option.bind_eq_bind, Option.bind_eq_some_iff, Option.ite_none_left_eq_some, Option.some.injEq,
      Prod.mk.injEq] at h
    obtain ⟨x, hx, -, rfl, rfl⟩ := h
    exact .write hx
  | delete c tid running l key =>
    simp only [perform, Option.bind_eq_bind, Option.bind_eq_some_iff, Option.ite_none_left_eq_some,
      Option.some.injEq] at h
    obtain ⟨x, hx, -, h⟩ := h
    have hdelete : Performs vars s (.delete c tid running l key) _ _ := .delete hx
    rw [h] at hdelete
    exact hdelete
  | restoreRef c context tid i =>
    simp only [perform, Option.bind_eq_bind, Option.bind_eq_some_iff, Option.some.injEq, Prod.mk.injEq] at h
    obtain ⟨x, hx, y, hy, st, hst, rfl, rfl⟩ := h
    exact .restoreRef hx hy hst
  | restorePlain c context tid v =>
    simp only [perform, Option.bind_eq_bind, Option.bind_eq_some_iff, Option.some.injEq] at h
    obtain ⟨x, hx, y, hy, w, hw, h⟩ := h
    have hrestore : Performs vars s (.restorePlain c context tid v) _ _ := .restorePlain v w hx hy hw
    rw [h] at hrestore
    exact hrestore

end

end Asgiref.Local
