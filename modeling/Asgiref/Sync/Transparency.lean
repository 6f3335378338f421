import Asgiref.Sync.ChooseExecutor
import Asgiref.Sync.ExactRestore

/-!
# Wrapped calls and direct calls

Sequential programs of sync and async bodies, run twice: with every wrapped call as `async_to_sync` and
`sync_to_async` make it, on threads and executors that the environment chooses, and with every wrapped call replaced
by a direct call in one context on one thread.

* `Prog` — the programs; the continuation of a read or of a call goes on with what it yielded;
* `exec`, `direct` — the two ways to run them, which leave a trace of what was read and of what the calls began and
  ended with; what becomes of exceptions on their way is a `Passage`;
* `Faithful` — the condition, on the direct run: at every call comparisons tell objects apart, and exceptions of sync
  bodies arrive as they are;
* `Sim` — the two contexts show the same;
* `exec_sim` — the simulation, by induction on the program.
-/

namespace Asgiref.Sync.Transparency

open Asgiref.Python Asgiref.Local

inductive Mode where
  | sync
  | async
  deriving DecidableEq

/-- How an `AsyncToSync` call is carried out: the thread of the loop, the new `CurrentThreadExecutor`, and whether the
loop is that of a parent or a new one, whose thread may inherit the caller's context. -/
structure ToLoop where
  thread : ThreadId
  executor : Nat
  parentLoop : Bool
  inherits : Bool

/-- How a `SyncToAsync` call is carried out: the worker thread, and what the executor is chosen by. -/
structure ToWorker where
  thread : ThreadId
  choice : Choice

/-- A body of a sync or an async function. -/
inductive Prog (U : Type) : Mode → Type where
  | ret {m : Mode} (v : U) : Prog U m
  | raise {m : Mode} (e : Exn) : Prog U m
  /-- `x.get()` or `x.get(fallback)` -/
  | getVar {m : Mode} (x : Nat) (fallback : Option U) (k : Result U → Prog U m) : Prog U m
  /-- `x.set(v)` -/
  | setVar {m : Mode} (x : Nat) (v : U) (k : Prog U m) : Prog U m
  | getAttr {m : Mode} (l : Nat) (key : Name) (k : Result U → Prog U m) : Prog U m
  | setAttr {m : Mode} (l : Nat) (key : Name) (v : U) (k : Prog U m) : Prog U m
  | delAttr {m : Mode} (l : Nat) (key : Name) (k : Result Unit → Prog U m) : Prog U m
  /-- `async_to_sync(body)()` -/
  | asyncToSync (h : ToLoop) (body : Prog U .async) (k : Result U → Prog U .sync) : Prog U .sync
  /-- `await sync_to_async(body)()` -/
  | syncToAsync (h : ToWorker) (body : Prog U .sync) (k : Result U → Prog U .async) : Prog U .async

/-- What code can see: its variables, and the attributes of `Local`s. -/
structure View (U : Type) where
  vars : Nat → Option U
  attrs : Nat → String → Option U

inductive Event (U : Type) where
  /-- What a read or a deletion yields. -/
  | var (r : Result U)
  | attr (r : Result U)
  | deleted (r : Result Unit)
  /-- A called body begins, and sees `v`. -/
  | entered (v : View U)
  /-- A call ends, and its caller sees `v`. -/
  | left (r : Result U) (v : View U)

/-- What a body ends with, the trace, and the context it leaves. -/
structure Outcome (U : Type) where
  result : Result U
  events : List (Event U)
  ctx : Context U

section

variable {U : Type}

/-- The outcome of what follows `events`. -/
def Outcome.after (events : List (Event U)) (o : Outcome U) : Outcome U := { o with events := events ++ o.events }

def view (t : ThreadId) (c : Context U) : View U := ⟨fun x => c.lookup (.user x), fun n => (c.storage t (.user n)).data⟩

/-- `x.set(v)` -/
def setVar (c : Context U) (x : Nat) (v : U) : Context U := AList.insert (Var.user x) v c

/-- `delattr(local, key)`: the context it leaves, and what it yields. -/
def delAttr (c : Context U) (t : ThreadId) (l : Nat) (key : String) : Context U × Result Unit :=
  match c.delattr t (.user l) key with
  | .ok c' => (c', .ok ())
  | .error e => (c, .error e)

variable (vars : UserVars U) (passage : Passage Exn)

/-- `x.get()` or `x.get(fallback)` -/
def getVar (c : Context U) (x : Nat) (fallback : Option U) : Result U :=
  match ((c.lookup (.user x)).or fallback).or (vars.default x) with
  | some v => .ok v
  | none => .error .lookupError

/-- The trace of a call that has ended with `o` on the thread `t` of its caller. -/
def Outcome.call (o : Outcome U) (t : ThreadId) : List (Event U) := o.events ++ [.left o.result (view t o.ctx)]

/-- A direct call of a function. -/
def callFunction (t : ThreadId) (body : Context U → Outcome U) (c : Context U) : Outcome U :=
  (body c).after [.entered (view t c)]

/-- A direct call of a coroutine function, awaited. -/
def callCoroutine (t : ThreadId) (body : Context U → Outcome U) (c : Context U) : Outcome U :=
  { callFunction t body c with result := passage.awaited (body c).result }

/-- Each wrapped call is a direct call, in one context. -/
def direct (t : ThreadId) : {m : Mode} → Prog U m → Context U → Outcome U
  | _, .ret v, c => ⟨.ok v, [], c⟩
  | _, .raise e, c => ⟨.error e, [], c⟩
  | _, .getVar x d k, c => (direct t (k (getVar vars c x d)) c).after [.var (getVar vars c x d)]
  | _, .setVar x v k, c => direct t k (setVar c x v)
  | _, .getAttr l key k, c =>
    (direct t (k (c.getattr t (.user l) key)) c).after [.attr (c.getattr t (.user l) key)]
  | _, .setAttr l key v k, c => direct t k (c.setattr t (.user l) key v)
  | _, .delAttr l key k, c =>
    (direct t (k (delAttr c t l key).2) (delAttr c t l key).1).after [.deleted (delAttr c t l key).2]
  | _, .asyncToSync _ body k, c =>
    let o := callCoroutine passage t (direct t body) c
    (direct t (k o.result) o.ctx).after (o.call t)
  | _, .syncToAsync _ body k, c =>
    let o := callFunction t (direct t body) c
    (direct t (k o.result) o.ctx).after (o.call t)

/-- The context of the task before `main_wrap` runs in it. -/
def ToLoop.base (h : ToLoop) (context : Context U) : Context U := if h.parentLoop || h.inherits then context else ∅

/-- A body on the thread `t`. -/
def enter (body : ThreadId → Context U → Option (Outcome U)) (t : ThreadId) (c : Context U) : Option (Outcome U) :=
  (body t c).map (Outcome.after [.entered (view t c)])

/-- `main_wrap` in its task.  An exception of `_restore_context` leaves `call_result` pending: a new loop ends with
it, a caller that waits for a parent loop waits for ever. -/
def mainWrap (h : ToLoop) (body : ThreadId → Context U → Option (Outcome U)) (context : Context U) :
    Option (Outcome U) :=
  match restoreContext vars h.thread context (h.base context) with
  | (c, none) => (enter body h.thread c).map fun o => { o with result := passage.awaited o.result }
  | (_, some e) => if h.parentLoop then none else some ⟨.error (passage.coroutine e), [], context⟩

/-- A `finally` block on the thread `t` in the context `cur`: `_restore_context` of what `o` has left, and then `rest`.
An exception of its own, as `leaves` has it, replaces what `o` ends with. -/
def Outcome.handBack (o : Outcome U) (t : ThreadId) (cur : Context U) (leaves : Exn → Exn)
    (rest : Context U → Context U) : Outcome U :=
  match restoreContext vars t o.ctx cur with
  | (c, none) => { o with ctx := rest c }
  | (c, some e) => ⟨.error (leaves e), o.events, c⟩

/-- `AsyncToSync.__call__` on the thread `t` -/
def asyncToSync (h : ToLoop) (body : ThreadId → Context U → Option (Outcome U)) (t : ThreadId) (c : Context U) :
    Option (Outcome U) :=
  let oldExecutor := c.currentExecutor t
  let context := c.setCurrentExecutor t (some h.executor)
  (mainWrap vars passage h body context).map fun o =>
    o.handBack vars t context id fun c' => c'.setCurrentExecutor t oldExecutor

/-- `run_child` on the worker thread -/
def runChild (h : ToWorker) (body : ThreadId → Context U → Option (Outcome U)) (context : Context U) :
    Option (Outcome U) :=
  match restoreContext vars h.thread context context with
  | (c, none) => enter body h.thread c
  | (c, some e) => some ⟨.error e, [], c⟩

/-- `SyncToAsync.__call__` on the loop's thread `t` -/
def syncToAsync (h : ToWorker) (body : ThreadId → Context U → Option (Outcome U)) (t : ThreadId) (c : Context U) :
    Option (Outcome U) :=
  match chooseExecutor h.choice t c with
  | .error e => some ⟨.error (passage.coroutine e), [], c⟩
  | .ok (_, context) =>
    (runChild vars h body context).bind fun o =>
      (passage.arrived o.result).map fun r =>
        Outcome.handBack vars ⟨r, o.events, o.ctx⟩ t context passage.coroutine fun c' => c'.setDeadlock false

/-- The wrapped program on the thread `t`; `none` if a caller waits for ever. -/
def exec : {m : Mode} → Prog U m → ThreadId → Context U → Option (Outcome U)
  | _, .ret v, _, c => some ⟨.ok v, [], c⟩
  | _, .raise e, _, c => some ⟨.error e, [], c⟩
  | _, .getVar x d k, t, c => (exec (k (getVar vars c x d)) t c).map (Outcome.after [.var (getVar vars c x d)])
  | _, .setVar x v k, t, c => exec k t (setVar c x v)
  | _, .getAttr l key k, t, c =>
    (exec (k (c.getattr t (.user l) key)) t c).map (Outcome.after [.attr (c.getattr t (.user l) key)])
  | _, .setAttr l key v k, t, c => exec k t (c.setattr t (.user l) key v)
  | _, .delAttr l key k, t, c =>
    (exec (k (delAttr c t l key).2) t (delAttr c t l key).1).map (Outcome.after [.deleted (delAttr c t l key).2])
  | _, .asyncToSync h body k, t, c =>
    (asyncToSync vars passage h (exec body) t c).bind fun o => (exec (k o.result) t o.ctx).map (Outcome.after (o.call t))
  | _, .syncToAsync h body k, t, c =>
    (syncToAsync vars passage h (exec body) t c).bind fun o => (exec (k o.result) t o.ctx).map (Outcome.after (o.call t))

/-- At every wrapped call of the direct run, from the bindings `c` with which the body is entered to those it leaves:
the comparisons on the way in and on the way back tell objects apart, and the exception that a sync body ends with
arrives as it is. -/
def Faithful (t : ThreadId) : {m : Mode} → Prog U m → Context U → Prop
  | _, .ret _, _ | _, .raise _, _ => True
  | _, .getVar x d k, c => Faithful t (k (getVar vars c x d)) c
  | _, .setVar x v k, c => Faithful t k (setVar c x v)
  | _, .getAttr l key k, c => Faithful t (k (c.getattr t (.user l) key)) c
  | _, .setAttr l key v k, c => Faithful t k (c.setattr t (.user l) key v)
  | _, .delAttr l key k, c => Faithful t (k (delAttr c t l key).2) (delAttr c t l key).1
  | _, .asyncToSync h body k, c =>
    let o := direct vars passage t body c
    TellsApart vars c (h.base c) ∧ Faithful t body c ∧ TellsApart vars o.ctx c ∧
      Faithful t (k (passage.awaited o.result)) o.ctx
  | _, .syncToAsync _ body k, c =>
    let o := direct vars passage t body c
    TellsApart vars c c ∧ Faithful t body c ∧ TellsApart vars o.ctx c ∧ passage.arrived o.result = some o.result ∧
      Faithful t (k o.result) o.ctx

end

/-! ### What a context shows -/

section

variable {U : Type}

/-- Every `Local` storage of the context belongs to the thread `t`. -/
def Owned (t : ThreadId) (c : Context U) : Prop := ∀ l st, c.data l = some st → st.threadId = t

/-- The attributes of a `Local`, whoever owns them. -/
def attrs (c : Context U) (l : LocalId) : String → Option (l.Attr U) :=
  match c.data l with
  | some st => st.data
  | none => fun _ => none

theorem data_storage_of_owned {t : ThreadId} {c : Context U} (h : Owned t c) (l : LocalId) :
    (c.storage t l).data = attrs c l := by
  unfold Context.storage attrs
  cases hd : c.data l with
  | none => rfl
  | some st => simp [h l st hd]

/-- The contexts `c`, on the thread `t`, and `d`, on the thread `t₀`, show the same. -/
structure Sim (t : ThreadId) (c : Context U) (t₀ : ThreadId) (d : Context U) : Prop where
  vars : ∀ x, c.lookup (.user x) = d.lookup (.user x)
  attrs : ∀ n, attrs c (.user n) = attrs d (.user n)
  owned : Owned t c
  owned' : Owned t₀ d

theorem Sim.refl {t : ThreadId} {c : Context U} (h : Owned t c) : Sim t c t c := ⟨fun _ => rfl, fun _ => rfl, h, h⟩

theorem Sim.getVar {t t₀ : ThreadId} {c d : Context U} (h : Sim t c t₀ d) (vars : UserVars U) (x : Nat)
    (fallback : Option U) : getVar vars c x fallback = getVar vars d x fallback := by
  unfold Transparency.getVar
  rw [h.vars x]

theorem Sim.data_storage {t t₀ : ThreadId} {c d : Context U} (h : Sim t c t₀ d) (n : Nat) :
    (c.storage t (.user n)).data = (d.storage t₀ (.user n)).data := by
  rw [data_storage_of_owned h.owned, data_storage_of_owned h.owned', h.attrs n]

/-- The same is seen. -/
theorem Sim.view {t t₀ : ThreadId} {c d : Context U} (h : Sim t c t₀ d) : view t c = view t₀ d := by
  unfold Transparency.view
  rw [funext h.vars, funext h.data_storage]

theorem Sim.getattr {t t₀ : ThreadId} {c d : Context U} (h : Sim t c t₀ d) (n : Nat) (key : String) :
    c.getattr t (.user n) key = d.getattr t₀ (.user n) key := by
  unfold Context.getattr
  rw [h.data_storage n]

/-! ### Setting one entry -/

theorem owned_setData {t : ThreadId} {c : Context U} (h : Owned t c) {l : LocalId} {st : Storage (l.Attr U)}
    (hst : st.threadId = t) : Owned t (c.setData l st) := by
  intro l' st' hd
  by_cases hl : l' = l
  · subst hl
    rw [Context.data_setData] at hd
    cases hd
    exact hst
  · rw [Context.data_setData_ne c st hl] at hd
    exact h l' st' hd

theorem attrs_setData (c : Context U) (l : LocalId) (st : Storage (l.Attr U)) : attrs (c.setData l st) l = st.data := by
  unfold attrs
  rw [Context.data_setData]

theorem attrs_setData_ne (c : Context U) {l l' : LocalId} (st : Storage (l.Attr U)) (h : l' ≠ l) :
    attrs (c.setData l st) l' = attrs c l' := by
  unfold attrs
  rw [Context.data_setData_ne c st h]

/-- An entry that is neither a user's variable nor a `Local`. -/
theorem Sim.insert {t t₀ : ThreadId} {c d : Context U} (h : Sim t c t₀ d) {x : Var} (v : x.Value U)
    (hx : ∀ n, x ≠ .user n) (hl : ∀ l, x ≠ .data l) : Sim t (AList.insert x v c) t₀ d := by
  have hdata : ∀ l, Context.data (AList.insert x v c) l = c.data l := fun l => AList.lookup_insert_ne (hl l).symm
  refine ⟨fun n => ?_, fun n => ?_, fun l st hst => h.owned l st (hdata l ▸ hst), h.owned'⟩
  · rw [← h.vars n]
    exact AList.lookup_insert_ne (hx n).symm
  · rw [← h.attrs n]
    unfold Transparency.attrs
    rw [hdata]

theorem Sim.setVar {t t₀ : ThreadId} {c d : Context U} (h : Sim t c t₀ d) (x : Nat) (v : U) :
    Sim t (setVar c x v) t₀ (setVar d x v) := by
  have hdata : ∀ (c : Context U) l, (Transparency.setVar c x v).data l = c.data l :=
    fun c l => AList.lookup_insert_ne (by simp)
  refine ⟨fun y => ?_, fun n => ?_, fun l st hst => h.owned l st (hdata c l ▸ hst),
    fun l st hst => h.owned' l st (hdata d l ▸ hst)⟩
  · unfold Transparency.setVar
    by_cases hy : y = x
    · subst hy
      rw [AList.lookup_insert, AList.lookup_insert]
    · have hne : Var.user y ≠ Var.user x := fun h => hy (Var.user.inj h)
      rw [AList.lookup_insert_ne hne, AList.lookup_insert_ne hne]
      exact h.vars y
  · unfold Transparency.attrs
    rw [hdata, hdata]
    exact h.attrs n

/-- The storage of a user's `Local` is replaced, on both sides with the same data. -/
theorem Sim.setData {t t₀ : ThreadId} {c d : Context U} (h : Sim t c t₀ d) (n : Nat) (data : String → Option U) :
    Sim t (c.setData (.user n) ⟨t, data⟩) t₀ (d.setData (.user n) ⟨t₀, data⟩) := by
  refine ⟨fun x => ?_, fun m => ?_, owned_setData h.owned rfl, owned_setData h.owned' rfl⟩
  · rw [Context.lookup_setData_ne c _ (by simp), Context.lookup_setData_ne d _ (by simp)]
    exact h.vars x
  · by_cases hm : m = n
    · subst hm
      rw [attrs_setData, attrs_setData]
    · have hne : LocalId.user m ≠ LocalId.user n := fun h => hm (LocalId.user.inj h)
      rw [attrs_setData_ne c _ hne, attrs_setData_ne d _ hne]
      exact h.attrs m

theorem Sim.setattr {t t₀ : ThreadId} {c d : Context U} (h : Sim t c t₀ d) (n : Nat) (key : String) (v : U) :
    Sim t (c.setattr t (.user n) key v) t₀ (d.setattr t₀ (.user n) key v) := by
  unfold Context.setattr
  rw [h.data_storage n]
  exact h.setData n _

theorem Sim.delAttr {t t₀ : ThreadId} {c d : Context U} (h : Sim t c t₀ d) (n : Nat) (key : String) :
    Sim t (delAttr c t n key).1 t₀ (delAttr d t₀ n key).1 ∧ (delAttr c t n key).2 = (delAttr d t₀ n key).2 := by
  unfold Transparency.delAttr Context.delattr
  rw [h.data_storage n]
  cases (d.storage t₀ (.user n)).data key with
  | none => exact ⟨h, rfl⟩
  | some v => exact ⟨h.setData n _, rfl⟩

/-- A deletion leaves the context alone or replaces the storage of the `Local`. -/
theorem delAttr_fst (c : Context U) (t : ThreadId) (n : Nat) (key : String) :
    (delAttr c t n key).1 = c ∨ ∃ st, (delAttr c t n key).1 = c.setData (.user n) st := by
  unfold delAttr Context.delattr
  cases (c.storage t (.user n)).data key with
  | none => exact Or.inl rfl
  | some v => exact Or.inr ⟨_, rfl⟩

/-- The executor a caller sets for itself is no concern of the user's. -/
theorem Sim.setCurrentExecutor {t t₀ : ThreadId} {c d : Context U} (h : Sim t c t₀ d) (e : Option Nat) :
    Sim t (c.setCurrentExecutor t e) t₀ d := by
  refine ⟨fun x => ?_, fun n => ?_, owned_setData h.owned rfl, h.owned'⟩
  · rw [← h.vars x]
    exact Context.lookup_setattr_ne c t _ _ (by simp)
  · rw [← h.attrs n]
    exact attrs_setData_ne c _ (by simp)

/-! ### Moving a context -/

/-- What is bound in `c` is bound in `c'`. -/
def Grows (c c' : Context U) : Prop := ∀ x, c'.lookup x = none → c.lookup x = none

theorem Grows.trans {a b c : Context U} (h : Grows a b) (h' : Grows b c) : Grows a c := fun x hx => h x (h' x hx)

theorem grows_insert (c : Context U) {x : Var} (v : x.Value U) : Grows c (AList.insert x v c) := by
  intro y hy
  by_cases hxy : y = x
  · subst hxy
    rw [AList.lookup_insert] at hy
    cases hy
  · rwa [AList.lookup_insert_ne hxy] at hy

theorem grows_setVar (c : Context U) (x : Nat) (v : U) : Grows c (setVar c x v) := grows_insert c (x := .user x) v

theorem grows_setData (c : Context U) {l : LocalId} (st : Storage (l.Attr U)) : Grows c (c.setData l st) :=
  grows_insert c (x := .data l) st

theorem ToLoop.grows_base (h : ToLoop) (c : Context U) : Grows (h.base c) c := by
  unfold base
  split
  · exact fun x hx => hx
  · exact fun x _ => AList.lookup_empty x

/-- The context of the loop's task has the user's bindings of the caller, or none. -/
theorem ToLoop.lookup_base (h : ToLoop) {c d : Context U} (hcd : ∀ x, c.lookup (.user x) = d.lookup (.user x)) (x : Nat) :
    (h.base c).lookup (.user x) = (h.base d).lookup (.user x) := by
  unfold base
  split
  · exact hcd x
  · rfl

/-- `c'` is `c`, moved to the thread `t`. -/
def Moved (t : ThreadId) (c c' : Context U) : Prop := ∀ x, c'.lookup x = (c.lookup x).map (carry t x)

section

variable {vars : UserVars U}

/-- Only the bindings of the user's variables count. -/
theorem tellsApart_congr {context context' cur cur' : Context U}
    (hcontext : ∀ x, context.lookup (.user x) = context'.lookup (.user x))
    (hcur : ∀ x, cur.lookup (.user x) = cur'.lookup (.user x)) :
    TellsApart vars context cur ↔ TellsApart vars context' cur' := by
  unfold TellsApart
  simp only [hcontext, hcur]

/-- **`_restore_context` moves a context**, into one that has no other bindings. -/
theorem restoreContext_moved {context cur : Context U} (h : TellsApart vars context cur) (t : ThreadId)
    (hcur : Grows cur context) : ∃ c, restoreContext vars t context cur = (c, none) ∧ Moved t context c := by
  have hexact := exact_of_tellsApart (t := t) h
  refine ⟨(restoreContext vars t context cur).1, Prod.ext rfl hexact.total, fun x => ?_⟩
  cases hx : context.lookup x with
  | none =>
    rw [hexact.others x hx]
    exact hcur x hx
  | some v => exact hexact.bound x v hx

theorem Moved.data {t : ThreadId} {c c' : Context U} (h : Moved t c c') (l : LocalId) :
    c'.data l = (c.data l).map (rehome t) := h (.data l)

theorem Moved.grows {t : ThreadId} {c c' : Context U} (h : Moved t c c') : Grows c c' := by
  intro x hx
  rw [h x] at hx
  exact Option.map_eq_none_iff.1 hx

/-- A moved context shows, on its thread, what the first one shows on its own. -/
theorem Sim.moved {t t' t₀ : ThreadId} {c c' d : Context U} (h : Sim t c t₀ d) (hm : Moved t' c c') : Sim t' c' t₀ d := by
  refine ⟨fun x => ?_, fun n => ?_, fun l st hst => ?_, h.owned'⟩
  · rw [hm (.user x), ← h.vars x]
    cases c.lookup (.user x) <;> rfl
  · rw [← h.attrs n]
    unfold Transparency.attrs
    rw [hm.data]
    cases c.data (.user n) <;> rfl
  · rw [hm.data] at hst
    obtain ⟨st', -, rfl⟩ := Option.map_eq_some_iff.1 hst
    rfl

end

end

/-! ### The simulation -/

section

variable {U : Type}

/-- A thread-sensitive call would not be refused: there is an executor, or the single thread is not in use. -/
def NotBlocked : Mode → ThreadId → Context U → Prop
  | .sync, _, _ => True
  | .async, t, c => c.currentExecutor t ≠ none ∨ c.deadlock = false

theorem NotBlocked.congr {m : Mode} {t : ThreadId} {c c' : Context U} (h : NotBlocked m t c)
    (he : c'.data .executors = c.data .executors) (hd : c'.lookup .deadlockContext = c.lookup .deadlockContext) :
    NotBlocked m t c' := by
  cases m with
  | sync => trivial
  | async =>
    show c'.currentExecutor t ≠ none ∨ c'.deadlock = false
    rw [Context.currentExecutor_congr t he, Context.deadlock_congr hd]
    exact h

/-- In a context that has come from that of a caller, the caller's executor is there. -/
theorem notBlocked_moved {c c₁ : Context U} {t t' : ThreadId} {e : Nat}
    (h : Moved t' (c.setCurrentExecutor t (some e)) c₁) : NotBlocked .async t' c₁ := by
  obtain ⟨st, hst, -, he⟩ := Context.data_setCurrentExecutor c t (some e)
  have hmoved : c₁.data .executors = some (rehome t' st) := by
    rw [h.data, hst]
    rfl
  have hcurrent : c₁.currentExecutor t' = some e := Context.currentExecutor_of_data hmoved (threadId_rehome ..) he
  exact Or.inl (by simp [hcurrent])

/-- The choice of an executor that is not refused sets the flag at most. -/
theorem exists_chooseExecutor {t t₀ : ThreadId} {c d : Context U} (hs : Sim t c t₀ d) (hfree : NotBlocked .async t c)
    (choice : Choice) :
    ∃ x context, chooseExecutor choice t c = .ok (x, context) ∧ Sim t context t₀ d ∧ Grows c context := by
  cases hchoice : chooseExecutor choice t c with
  | error e =>
    obtain ⟨⟨-, hnone, -⟩, hdead, -⟩ := chooseExecutor_eq_error.1 hchoice
    rcases hfree with hsome | hoff
    · exact absurd hnone hsome
    · rw [hoff] at hdead
      cases hdead
  | ok p =>
    obtain ⟨x, context⟩ := p
    refine ⟨x, context, rfl, ?_⟩
    rcases chooseExecutor_eq_ok hchoice with ⟨rfl, -⟩ | ⟨-, -, -, rfl⟩
    · exact ⟨hs, fun x hx => hx⟩
    · exact ⟨hs.insert _ (by simp) (by simp), grows_insert c _⟩

/-- The outcome `o` of the wrapped program, started in `c`, against that of the direct one. -/
structure Matches (m : Mode) (t t₀ : ThreadId) (c : Context U) (o o' : Outcome U) : Prop where
  result : o.result = o'.result
  events : o.events = o'.events
  sim : Sim t o.ctx t₀ o'.ctx
  grows : Grows c o.ctx
  notBlocked : NotBlocked m t o.ctx

/-- From contexts that show the same, where `C` holds of the direct one, `run` returns, with what the direct `run'`
returns. -/
def Simulates (m : Mode) (t₀ : ThreadId) (C : Context U → Prop) (run : ThreadId → Context U → Option (Outcome U))
    (run' : Context U → Outcome U) : Prop :=
  ∀ t c d, Sim t c t₀ d → NotBlocked m t c → C d → ∃ o, run t c = some o ∧ Matches m t t₀ c o (run' d)

/-- One operation on both sides, and then the rest of the body. -/
theorem Matches.after {m : Mode} {t t₀ : ThreadId} {c c₁ : Context U} {o o' : Outcome U} (h : Matches m t t₀ c₁ o o')
    (hc : Grows c c₁) (events : List (Event U)) : Matches m t t₀ c (o.after events) (o'.after events) :=
  ⟨h.result, by simp [Outcome.after, h.events], h.sim, hc.trans h.grows, h.notBlocked⟩

theorem Matches.call {m : Mode} {t t₀ : ThreadId} {c : Context U} {o o' : Outcome U} (h : Matches m t t₀ c o o') :
    o.call t = o'.call t₀ := by
  unfold Outcome.call
  rw [h.events, h.result, h.sim.view]

/-- A wrapped call, and then the rest of the body. -/
theorem simulates_call {m : Mode} {t₀ : ThreadId} {C : Context U → Prop} {D : Result U → Context U → Prop}
    {call : ThreadId → Context U → Option (Outcome U)} {call' : Context U → Outcome U}
    {k : Result U → ThreadId → Context U → Option (Outcome U)} {k' : Result U → Context U → Outcome U}
    (hcall : Simulates m t₀ C call call') (hk : ∀ r, Simulates m t₀ (D r) (k r) (k' r)) :
    Simulates m t₀ (fun d => C d ∧ D (call' d).result (call' d).ctx)
      (fun t c => (call t c).bind fun o => (k o.result t o.ctx).map (Outcome.after (o.call t)))
      (fun d => (k' (call' d).result (call' d).ctx).after ((call' d).call t₀)) := by
  rintro t c d hs hfree ⟨hC, hD⟩
  obtain ⟨o, ho, hmatch⟩ := hcall t c d hs hfree hC
  rw [← hmatch.result] at hD
  obtain ⟨o₂, ho₂, hmatch₂⟩ := hk o.result t o.ctx (call' d).ctx hmatch.sim hmatch.notBlocked hD
  refine ⟨o₂.after (o.call t), by simp only [ho, Option.bind_some, ho₂, Option.map_some], ?_⟩
  show Matches m t t₀ c _ ((k' (call' d).result (call' d).ctx).after ((call' d).call t₀))
  rw [← hmatch.call, ← hmatch.result]
  exact hmatch₂.after hmatch.grows _

variable {vars : UserVars U} {passage : Passage Exn}

/-- A body whose first event is what it sees. -/
theorem simulates_enter {m : Mode} {t₀ : ThreadId} {C : Context U → Prop}
    {body : ThreadId → Context U → Option (Outcome U)} {body' : Context U → Outcome U}
    (hbody : Simulates m t₀ C body body') : Simulates m t₀ C (enter body) (callFunction t₀ body') := by
  intro t c d hs hfree hC
  obtain ⟨o, ho, hmatch⟩ := hbody t c d hs hfree hC
  refine ⟨o.after [.entered (view t c)], by simp only [enter, ho, Option.map_some], ?_⟩
  rw [hs.view]
  exact hmatch.after (fun x hx => hx) _

theorem simulates_asyncToSync {t₀ : ThreadId} {C : Context U → Prop} (h : ToLoop)
    {body : ThreadId → Context U → Option (Outcome U)} {body' : Context U → Outcome U}
    (hbody : Simulates .async t₀ C body body') :
    Simulates .sync t₀ (fun d => TellsApart vars d (h.base d) ∧ C d ∧ TellsApart vars (body' d).ctx d)
      (asyncToSync vars passage h body) (callCoroutine passage t₀ body') := by
  rintro t c d hs - ⟨hin, hC, hout⟩
  have hcontext := hs.setCurrentExecutor (some h.executor)
  have hgrows : Grows c (c.setCurrentExecutor t (some h.executor)) := grows_insert c _
  -- the context moves to the loop
  obtain ⟨c₁, hin, hm₁⟩ := restoreContext_moved
    ((tellsApart_congr hcontext.vars (h.lookup_base hcontext.vars)).2 hin) h.thread (h.grows_base _)
  obtain ⟨o, ho, hmatch⟩ := simulates_enter hbody h.thread c₁ d (hcontext.moved hm₁) (notBlocked_moved hm₁) hC
  -- and back
  obtain ⟨c₂, hout, hm₂⟩ := restoreContext_moved ((tellsApart_congr hmatch.sim.vars hcontext.vars).2 hout) t
    (hm₁.grows.trans hmatch.grows)
  refine ⟨⟨passage.awaited o.result, o.events, c₂.setCurrentExecutor t (c.currentExecutor t)⟩, ?_,
    congrArg passage.awaited hmatch.result, hmatch.events, ?_, ?_, trivial⟩
  · simp only [asyncToSync, mainWrap, hin, ho, Option.map_some, Outcome.handBack, hout]
  · exact (hmatch.sim.moved hm₂).setCurrentExecutor _
  · exact (((hgrows.trans hm₁.grows).trans hmatch.grows).trans hm₂.grows).trans (grows_insert c₂ _)

theorem simulates_syncToAsync {t₀ : ThreadId} {C : Context U → Prop} (h : ToWorker)
    {body : ThreadId → Context U → Option (Outcome U)} {body' : Context U → Outcome U}
    (hbody : Simulates .sync t₀ C body body') :
    Simulates .async t₀ (fun d => TellsApart vars d d ∧ C d ∧ TellsApart vars (body' d).ctx d ∧
        passage.arrived (body' d).result = some (body' d).result)
      (syncToAsync vars passage h body) (callFunction t₀ body') := by
  rintro t c d hs hfree ⟨hin, hC, hout, harrived⟩
  obtain ⟨x, context, hchoice, hcontext, hgrows⟩ := exists_chooseExecutor hs hfree h.choice
  obtain ⟨c₁, hin, hm₁⟩ := restoreContext_moved ((tellsApart_congr hcontext.vars hcontext.vars).2 hin) h.thread
    (show Grows context context from fun x hx => hx)
  obtain ⟨o, ho, hmatch⟩ := simulates_enter hbody h.thread c₁ d (hcontext.moved hm₁) trivial hC
  obtain ⟨c₂, hout, hm₂⟩ := restoreContext_moved ((tellsApart_congr hmatch.sim.vars hcontext.vars).2 hout) t
    (hm₁.grows.trans hmatch.grows)
  have harrived : passage.arrived o.result = some o.result := by
    rw [hmatch.result]
    exact harrived
  refine ⟨{ o with ctx := c₂.setDeadlock false }, ?_, hmatch.result, hmatch.events, ?_, ?_, ?_⟩
  · simp only [syncToAsync, hchoice, runChild, hin, ho, Option.bind_some, harrived, Option.map_some, Outcome.handBack, hout]
  · exact (hmatch.sim.moved hm₂).insert _ (by simp) (by simp)
  · exact (((hgrows.trans hm₁.grows).trans hmatch.grows).trans hm₂.grows).trans (grows_insert c₂ _)
  · exact Or.inr (Context.deadlock_setDeadlock c₂ false)

/-- A deletion keeps what is bound, and what the calls go by. -/
theorem delAttr_keeps {m : Mode} {c : Context U} {t : ThreadId} (hfree : NotBlocked m t c) (n : Nat) (key : String) :
    NotBlocked m t (delAttr c t n key).1 ∧ Grows c (delAttr c t n key).1 := by
  rcases delAttr_fst c t n key with h | ⟨st, h⟩
  · rw [h]
    exact ⟨hfree, fun x hx => hx⟩
  · rw [h]
    exact ⟨hfree.congr (Context.data_setData_ne c _ (by simp)) (Context.lookup_setData_ne c _ (by simp)),
      grows_setData c st⟩

theorem NotBlocked.setVar {m : Mode} {c : Context U} {t : ThreadId} (h : NotBlocked m t c) (x : Nat) (v : U) :
    NotBlocked m t (setVar c x v) :=
  h.congr (AList.lookup_insert_ne (by simp)) (AList.lookup_insert_ne (by simp))

theorem NotBlocked.setattr {m : Mode} {c : Context U} {t : ThreadId} (h : NotBlocked m t c) (n : Nat) (key : String)
    (v : U) : NotBlocked m t (c.setattr t (.user n) key v) :=
  h.congr (Context.data_setData_ne c _ (by simp)) (Context.lookup_setData_ne c _ (by simp))

/-- **The wrapped program does what the direct one does.** -/
theorem exec_sim {m : Mode} (p : Prog U m) (t₀ : ThreadId) :
    Simulates m t₀ (Faithful vars passage t₀ p) (exec vars passage p) (direct vars passage t₀ p) := by
  induction p with
  | ret v => exact fun t c d hs hfree _ => ⟨_, rfl, rfl, rfl, hs, fun x hx => hx, hfree⟩
  | raise e => exact fun t c d hs hfree _ => ⟨_, rfl, rfl, rfl, hs, fun x hx => hx, hfree⟩
  | getVar x fallback k ih =>
    intro t c d hs hfree hf
    obtain ⟨o, ho, hmatch⟩ := ih (getVar vars d x fallback) t c d hs hfree hf
    refine ⟨o.after [.var (getVar vars d x fallback)], ?_, hmatch.after (fun x hx => hx) _⟩
    simp only [exec, hs.getVar, ho, Option.map_some]
  | setVar x v k ih =>
    intro t c d hs hfree hf
    obtain ⟨o, ho, hmatch⟩ := ih t _ _ (hs.setVar x v) (hfree.setVar x v) hf
    exact ⟨o, ho, hmatch.result, hmatch.events, hmatch.sim, (grows_setVar c x v).trans hmatch.grows,
      hmatch.notBlocked⟩
  | getAttr l key k ih =>
    intro t c d hs hfree hf
    obtain ⟨o, ho, hmatch⟩ := ih (d.getattr t₀ (.user l) key) t c d hs hfree hf
    refine ⟨o.after [.attr (d.getattr t₀ (.user l) key)], ?_, hmatch.after (fun x hx => hx) _⟩
    simp only [exec, hs.getattr, ho, Option.map_some]
  | setAttr l key v k ih =>
    intro t c d hs hfree hf
    obtain ⟨o, ho, hmatch⟩ := ih t _ _ (hs.setattr l key v) (hfree.setattr l key v) hf
    exact ⟨o, ho, hmatch.result, hmatch.events, hmatch.sim, (grows_setData c _).trans hmatch.grows,
      hmatch.notBlocked⟩
  | delAttr l key k ih =>
    intro t c d hs hfree hf
    obtain ⟨hs', hr⟩ := hs.delAttr l key
    obtain ⟨hfree', hgrows⟩ := delAttr_keeps hfree l key
    obtain ⟨o, ho, hmatch⟩ := ih (delAttr d t₀ l key).2 t _ _ hs' hfree' hf
    refine ⟨o.after [.deleted (delAttr d t₀ l key).2], ?_, hmatch.after hgrows _⟩
    simp only [exec, hr, ho, Option.map_some]
  | asyncToSync h body k ihb ihk =>
    rintro t c d hs hfree ⟨hin, hbody, hout, hk⟩
    exact simulates_call (simulates_asyncToSync h ihb) ihk t c d hs hfree ⟨⟨hin, hbody, hout⟩, hk⟩
  | syncToAsync h body k ihb ihk =>
    rintro t c d hs hfree ⟨hin, hbody, hout, harrived, hk⟩
    exact simulates_call (simulates_syncToAsync h ihb) ihk t c d hs hfree ⟨⟨hin, hbody, hout, harrived⟩, hk⟩

end

end Asgiref.Sync.Transparency
