import Asgiref.Local.Isolation

/-!
# `Local`s and the names of their parts

`Local`s of both kinds with the objects they are made of: the `_CVar`s, which a thread-critical `Local` makes for each
thread that runs a loop, and its `threading.local()`.  A name of the user can be that of such a part.

* `Obj`, `Thread`, `State`: what names can lead to, and the objects;
* `lockStorage`: the storage that `Local._lock_storage` yields; `getOn`, `setOn`, `deleteOn`: attribute access to it;
* `perform`, `machine`: any interleaving in any number of threads and contexts, with threads that start and end.

A thread is known by its number, which is never used again; its identifier can be.  The objects of the user have no
attributes.
-/

namespace Asgiref.Local.Objects

open Asgiref.Python Asgiref.Lib Asgiref.Sync

abbrev ThreadNo := Nat

/-- A `_CVar`.  Its context variable is `Var.data (.user k)`. -/
abbrev CVarNo := Nat

/-- What a name can lead to: an object of the user, or a part of the implementation. -/
inductive Obj (U : Type) where
  | value (v : U)
  | contextVar (k : CVarNo)
  | cvar (k : CVarNo)
  deriving DecidableEq

inductive LocalObj where
  /-- The `n`th `Local` with `thread_critical=False`. -/
  | shared (n : Nat)
  /-- `Local(thread_critical=True)` -/
  | critical (n : Nat)
  deriving DecidableEq

structure Thread (U : Type) where
  /-- `threading.get_ident()` -/
  ident : ThreadId
  /-- what each `threading.local()` has on this thread -/
  attrs : Nat → String → Option (Obj U) := fun _ _ => none

structure State (U : Type) where
  contexts : ContextId → Option (Context U)
  /-- the threads in the order of their starts, `none` for one that has ended -/
  threads : List (Option (Thread U)) := []
  /-- the `_CVar` of each `Local` with `thread_critical=False` -/
  locals : List CVarNo := []
  /-- how many `_CVar`s have been made -/
  cvars : Nat := 0
  /-- the object that the user has put in the place of a `_CVar`'s attribute `_data` -/
  data : CVarNo → Option U := fun _ => none
  /-- what `Local.__setattr__` has stored on the object itself -/
  object : LocalObj → String → Option U := fun _ _ => none
  /-- History: the thread and the `Local` for which a `_CVar` was made in `_lock_storage`. -/
  owner : CVarNo → Option (ThreadNo × Nat) := fun _ => none

/-- What `_lock_storage` yields. -/
inductive Target (U : Type) where
  | cvar (k : CVarNo)
  | threadLocal (n : Nat)
  /-- An object of the user that has taken the place of the attribute `cvar`. -/
  | foreign (v : U)

inductive Action (U : Type) where
  /-- A thread starts, and gets the identifier `tid`. -/
  | start (tid : ThreadId)
  | exit (i : ThreadNo)
  /-- An empty context. -/
  | newContext (new : ContextId)
  /-- A task, or a thread that inherits, gets a copy of the context `c`. -/
  | copy (c new : ContextId)
  /-- `Local()` -/
  | newLocal
  /-- Another context variable is set. -/
  | setVar (c : ContextId) (x : Var) (v : x.Value U)
  /-- `_restore_context(context)` in the context `c` on the thread `i` comes to the variable `x`. -/
  | restore (c context : ContextId) (i : ThreadNo) (x : Var)
  | read (c : ContextId) (i : ThreadNo) (running : Bool) (l : LocalObj) (key : String)
  | write (c : ContextId) (i : ThreadNo) (running : Bool) (l : LocalObj) (key : String) (v : U)
  | delete (c : ContextId) (i : ThreadNo) (running : Bool) (l : LocalObj) (key : String)

/-- The attributes of the class `Local` and of `object`, which normal lookup finds there. -/
def onClass : List String :=
  ["_lock_storage", "__class__", "__delattr__", "__dict__", "__dir__", "__doc__", "__eq__", "__firstlineno__", "__format__",
    "__ge__", "__getattr__", "__getattribute__", "__getstate__", "__gt__", "__hash__", "__init__", "__init_subclass__",
    "__le__", "__lt__", "__module__", "__ne__", "__new__", "__reduce__", "__reduce_ex__", "__repr__", "__setattr__",
    "__sizeof__", "__static_attributes__", "__str__", "__subclasshook__", "__weakref__"]

/-- The parts that `Local.__init__` stores on the object. -/
def initialParts : List String := ["_storage", "_thread_critical", "_thread_lock"]

section

variable {U : Type}

def Thread.setAttr (y : Thread U) (n : Nat) (key : String) (o : Option (Obj U)) : Thread U :=
  { y with attrs := Function.update y.attrs n (Function.update (y.attrs n) key o) }

namespace State

/-- One empty context. -/
def init : State U := { contexts := Function.update (fun _ => none) 0 (some ∅) }

variable (s : State U)

/-- The thread, while it is alive. -/
def thread (i : ThreadNo) : Option (Thread U) := s.threads[i]?.join

def setThread (i : ThreadNo) (y : Thread U) : State U := { s with threads := s.threads.set i (some y) }

def setContext (c : ContextId) (x : Context U) : State U :=
  { s with contexts := Function.update s.contexts c (some x) }

end State

variable (s : State U) (c : ContextId) (x : Context U) (i : ThreadNo) (y : Thread U)

/-! ### The methods of `_CVar` -/

/-- An attribute of the `_CVar` is read: normal lookup finds `_data`, `__getattr__` the others. -/
def cvarGet (k : CVarNo) (key : String) : Result (Obj U) :=
  if key = "_data" then
    match s.data k with
    | some v => .ok (.value v)
    | none => .ok (.contextVar k)
  else
    match s.data k with
    -- `self._data.get`
    | some _ => .error .attributeError
    | none => (x.getattr y.ident (.user k) key).map .value

/-- `_CVar.__setattr__` -/
def cvarSet (k : CVarNo) (key : String) (v : U) : State U × Option Exn :=
  if key = "_data" then ({ s with data := Function.update s.data k (some v) }, none)
  else
    match s.data k with
    | some _ => (s, some .attributeError)
    | none => (s.setContext c (x.setattr y.ident (.user k) key v), none)

/-- `_CVar.__delattr__` -/
def cvarDelete (k : CVarNo) (key : String) : State U × Option Exn :=
  match s.data k with
  | some _ => (s, some .attributeError)
  | none =>
    match x.delattr y.ident (.user k) key with
    | .ok x' => (s.setContext c x', none)
    | .error e => (s, some e)

/-! ### The methods of `Local` -/

/-- `self._storage.cvar = _CVar()` -/
def makeCVar (n : Nat) : State U :=
  { s.setThread i (y.setAttr n "cvar" (some (.cvar s.cvars))) with
    cvars := s.cvars + 1, owner := Function.update s.owner s.cvars (some (i, n)) }

/-- `Local._lock_storage()`; `running` says whether the thread runs a loop. -/
def lockStorage (running : Bool) : LocalObj → Option (State U × Target U)
  | .shared n => s.locals[n]?.map fun k => (s, .cvar k)
  | .critical n =>
    if running then
      match y.attrs n "cvar" with
      | none => some (makeCVar s i y n, .cvar s.cvars)
      | some (.cvar k) => some (s, .cvar k)
      | some (.value v) => some (s, .foreign v)
      | some (.contextVar _) => none
    else some (s, .threadLocal n)

/-- `getattr(storage, key)` -/
def getOn : Target U → String → Result (Obj U)
  | .cvar k, key => cvarGet s x y k key
  | .threadLocal n, key =>
    match y.attrs n key with
    | some o => .ok o
    | none => .error .attributeError
  | .foreign _, _ => .error .attributeError

/-- `setattr(storage, key, value)` -/
def setOn : Target U → String → U → State U × Option Exn
  | .cvar k, key, v => cvarSet s c x y k key v
  | .threadLocal n, key, v => (s.setThread i (y.setAttr n key (some (.value v))), none)
  | .foreign _, _, _ => (s, some .attributeError)

/-- `delattr(storage, key)` -/
def deleteOn : Target U → String → State U × Option Exn
  | .cvar k, key => cvarDelete s c x y k key
  | .threadLocal n, key =>
    match y.attrs n key with
    | some _ => (s.setThread i (y.setAttr n key none), none)
    | none => (s, some .attributeError)
  | .foreign _, _ => (s, some .attributeError)

/-- What an access ends with: the object that is read, if one is. -/
abbrev Outcome (U : Type) := Result (Option (Obj U))

/-- An access that reads nothing. -/
def ended : State U × Option Exn → State U × Outcome U
  | (s, none) => (s, .ok none)
  | (s, some e) => (s, .error e)

/-- `local.key` -/
def readLocal (running : Bool) (l : LocalObj) (key : String) : Option (State U × Outcome U) :=
  match s.object l key with
  | some v => some (s, .ok (some (.value v)))
  | none => (lockStorage s i y running l).map fun p => (p.1, (getOn p.1 x y p.2 key).map some)

/-- `Local.__setattr__` -/
def writeLocal (running : Bool) (l : LocalObj) (key : String) (v : U) : Option (State U × Outcome U) :=
  if key ∈ onObject then
    some ({ s with object := Function.update s.object l (Function.update (s.object l) key (some v)) }, .ok none)
  else (lockStorage s i y running l).map fun p => ended (setOn p.1 c x i y p.2 key v)

/-- `Local.__delattr__` -/
def deleteLocal (running : Bool) (l : LocalObj) (key : String) : Option (State U × Outcome U) :=
  (lockStorage s i y running l).map fun p => ended (deleteOn p.1 c x i y p.2 key)

/-- The name is one the user can have attributes under. -/
def isName (key : String) : Bool := decide (key ∉ onClass) && decide (key ∉ initialParts)

/-- The variable of a `_CVar` that is modelled as an object. -/
def isCVar : Var → Bool
  | .data (.user _) => true
  | _ => false

variable (vars : Sync.UserVars U)

/-- The state after the action, and what it ends with. -/
def perform : Action U → Option (State U × Outcome U)
  | .start tid => some ({ s with threads := s.threads ++ [some { ident := tid }] }, .ok none)
  | .exit i => do
    let _ ← s.thread i
    some ({ s with threads := s.threads.set i none }, .ok none)
  | .newContext new => if (s.contexts new).isNone then some (s.setContext new ∅, .ok none) else none
  | .copy c new => do
    let x ← s.contexts c
    if (s.contexts new).isNone then some (s.setContext new x, .ok none) else none
  | .newLocal => some ({ s with locals := s.locals ++ [s.cvars], cvars := s.cvars + 1 }, .ok none)
  | .setVar c v w => do
    let x ← s.contexts c
    if isCVar v then none else some (s.setContext c (AList.insert v w x), .ok none)
  | .restore c context i v => do
    let x ← s.contexts c
    let src ← s.contexts context
    let y ← s.thread i
    some (s.setContext c (restored vars y.ident v src x), .ok none)
  | .read c i running l key => do
    let x ← s.contexts c
    let y ← s.thread i
    if isName key then readLocal s x i y running l key else none
  | .write c i running l key v => do
    let x ← s.contexts c
    let y ← s.thread i
    if isName key then writeLocal s c x i y running l key v else none
  | .delete c i running l key => do
    let x ← s.contexts c
    let y ← s.thread i
    if isName key then deleteLocal s c x i y running l key else none

/-- Threads, contexts and `Local`s in one process. -/
def machine : Machine (State U) (Action U) := ⟨fun s a => (perform s vars a).map Prod.fst⟩

end

/-! ### Threads and their attributes -/

section

variable {U : Type} {s : State U} {i : ThreadNo} {y : Thread U}

theorem contexts_setContext (s : State U) (c : ContextId) (x : Context U) : (s.setContext c x).contexts c = some x := by
  unfold State.setContext
  exact Function.update_self ..

theorem contexts_setContext_cases {c d : ContextId} {x z : Context U} (hz : (s.setContext c x).contexts d = some z) :
    d = c ∧ z = x ∨ s.contexts d = some z := by
  by_cases hd : d = c
  · subst hd
    rw [contexts_setContext] at hz
    exact .inl ⟨rfl, (Option.some.inj hz).symm⟩
  · simp only [State.setContext, Function.update_of_ne hd] at hz
    exact .inr hz

theorem thread_lt (hi : s.thread i = some y) : i < s.threads.length := by
  unfold State.thread at hi
  by_contra hge
  rw [List.getElem?_eq_none (Nat.le_of_not_lt hge)] at hi
  cases hi

theorem thread_setThread (hi : s.thread i = some y) (z : Thread U) (j : ThreadNo) :
    (s.setThread i z).thread j = if j = i then some z else s.thread j := by
  unfold State.setThread State.thread
  by_cases hj : j = i
  · subst hj
    rw [if_pos rfl, List.getElem?_set_self (thread_lt hi)]
    rfl
  · rw [if_neg hj, List.getElem?_set_ne (Ne.symm hj)]

theorem setThread_self (hi : s.thread i = some y) : s.setThread i y = s := by
  obtain ⟨hlt, hget⟩ := List.getElem?_eq_some_iff.1 (Option.join_eq_some_iff.1 hi)
  unfold State.setThread
  rw [← hget, List.set_getElem_self]

theorem attrs_setAttr (y : Thread U) (n m : Nat) (key k : String) (o : Option (Obj U)) :
    (y.setAttr n key o).attrs m k = if m = n ∧ k = key then o else y.attrs m k := by
  unfold Thread.setAttr
  by_cases hm : m = n
  · subst hm
    by_cases hk : k = key
    · subst hk
      simp
    · simp [hk]
  · simp [hm]

/-- The threads, after an attribute of one of them has changed. -/
theorem thread_setAttr (hi : s.thread i = some y) {n : Nat} {key : String} {o : Option (Obj U)} {j : ThreadNo}
    {z : Thread U} (hz : (s.setThread i (y.setAttr n key o)).thread j = some z) :
    ∃ w, s.thread j = some w ∧ ∀ m k, z.attrs m k = if j = i ∧ m = n ∧ k = key then o else w.attrs m k := by
  rw [thread_setThread hi] at hz
  by_cases hj : j = i
  · rw [if_pos hj] at hz
    cases hz
    refine ⟨y, hj ▸ hi, fun m k => ?_⟩
    rw [attrs_setAttr]
    simp only [hj, true_and]
  · rw [if_neg hj] at hz
    exact ⟨z, hz, fun m k => (if_neg fun hall => hj hall.1).symm⟩

end

end Asgiref.Local.Objects
