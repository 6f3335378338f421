import Asgiref.Lib.Machine
import Asgiref.Sync.RestoreContext
import Mathlib.Data.Set.Insert

/-!
# What a thread can read from a `Local`

Any number of pieces of code, each on a thread and with a context of its own: they write and delete attributes of
`Local`s, start threads that begin with a copy of their context, copy their context for a task, and call each
other through `sync_to_async` and `async_to_sync`.

* `State.acquired` — history: what was written on a thread, or handed over to it by a hop from code that could read
  it;
* `step` — the actions; a hop moves a context to another thread with `restoreContext`, on the way in and on the way
  back; the names that `Local` and `_CVar` keep for themselves are not written or deleted;
* `Owned`, `MovesOwn` — the condition on the steps: the context a hop moves holds no data of another thread;
* `reads_only_acquired` — in every run whose steps meet it, what a thread can read it has acquired;
* `hop_reveals` — a hop that does not meet it shows the data; `inherited_data_shown` — a run in which it does.
-/

namespace Asgiref.Sync.Visibility

open Asgiref.Python Asgiref.Lib

abbrev CodeId := Nat

/-- A piece of running code. -/
structure Code (U : Type) where
  thread : ThreadId
  ctx : Context U

/-- An attribute of a `Local` with a value. -/
structure Fact (U : Type) where
  loc : LocalId
  key : String
  value : loc.Attr U

/-- The code can read the attribute with that value. -/
def Code.Reads {U : Type} (x : Code U) (f : Fact U) : Prop := x.ctx.Visible x.thread f.loc f.key f.value

structure State (U : Type) where
  code : CodeId → Option (Code U)
  /-- History: what was written on a thread, or handed over to it. -/
  acquired : ThreadId → Set (Fact U)

namespace State

variable {U : Type} (s : State U)

/-- One piece of code on thread `t`, with an empty context. -/
def init (i : CodeId) (t : ThreadId) : State U :=
  { code := Function.update (fun _ => none) i (some ⟨t, ∅⟩), acquired := fun _ => ∅ }

def setCode (i : CodeId) (x : Code U) : State U := { s with code := Function.update s.code i (some x) }

/-- The thread acquires what satisfies `p`. -/
def acquire (t : ThreadId) (p : Set (Fact U)) : State U :=
  { s with acquired := Function.update s.acquired t (s.acquired t ∪ p) }

@[simp] theorem code_setCode (i j : CodeId) (x : Code U) :
    (s.setCode i x).code j = if j = i then some x else s.code j := by
  simp only [setCode, Function.update_apply]

@[simp] theorem code_acquire (t : ThreadId) (p : Set (Fact U)) : (s.acquire t p).code = s.code := rfl

@[simp] theorem acquired_setCode (i : CodeId) (x : Code U) : (s.setCode i x).acquired = s.acquired := rfl

theorem acquired_acquire (t u : ThreadId) (p : Set (Fact U)) :
    (s.acquire t p).acquired u = if u = t then s.acquired t ∪ p else s.acquired u := by
  simp only [acquire, Function.update_apply]

end State

/-- The context the task of an `AsyncToSync` call has before `_restore_context` runs in it. -/
inductive Base where
  /-- A copy of the caller's context: the task goes to a parent loop. -/
  | caller
  /-- The context of the thread that runs the new loop, empty. -/
  | empty
  /-- The context of the thread that runs the new loop, a copy of that of other code. -/
  | inherited (m : CodeId)

inductive Action (U : Type) where
  /-- `setattr(local, key, value)` -/
  | write (i : CodeId) (l : LocalId) (key : String) (v : l.Attr U)
  /-- `delattr(local, key)` -/
  | delete (i : CodeId) (l : LocalId) (key : String)
  /-- A thread is started, with a copy of the context of `i`. -/
  | spawn (i j : CodeId) (t : ThreadId)
  /-- A task is made, with a copy of the context of `i`. -/
  | copy (i j : CodeId)
  /-- `sync_to_async`: the function `j` is run on the thread `t` for the coroutine `i`. -/
  | syncToAsync (i j : CodeId) (t : ThreadId)
  /-- `async_to_sync`: the coroutine `j` is run on the thread `t` for the function `i`, whose executor is `e`. -/
  | asyncToSync (i j : CodeId) (t : ThreadId) (e : Nat) (base : Base)
  /-- The context of the function `j` is handed back to the coroutine `i`. -/
  | endSyncToAsync (j i : CodeId)
  /-- The context of the coroutine `j` is handed back to the function `i`, whose old executor was `old`. -/
  | endAsyncToSync (j i : CodeId) (old : Option Nat)

section

variable {U : Type} (vars : UserVars U)

/-- `_restore_context` on the thread `t`, with whatever it has set if it raises. -/
def moved (t : ThreadId) (context cur : Context U) : Context U := (restoreContext vars t context cur).1

/-- The caller of an `AsyncToSync`, after `self.executors.current = e`. -/
def Code.setCurrent (x : Code U) (e : Option Nat) : Code U :=
  { x with ctx := x.ctx.setattr x.thread .executors "current" e }

/-- What `x` can read. -/
def Code.readable (x : Code U) : Set (Fact U) := {f | x.Reads f}

/-- `self.executors.current = e` in the code `i`. -/
def setCurrent (s : State U) (i : CodeId) (x : Code U) (e : Option Nat) : State U :=
  (s.setCode i (x.setCurrent e)).acquire x.thread {⟨.executors, "current", e⟩}

/-- New code `j` on the thread `t`, to which the context of `x` is moved. -/
def hop (s : State U) (x : Code U) (j : CodeId) (t : ThreadId) (base : Context U) : State U :=
  (s.setCode j ⟨t, moved vars t x.ctx base⟩).acquire t x.readable

/-- The context of `y` is moved back to `i`. -/
def handBack (s : State U) (y : Code U) (i : CodeId) (x : Code U) : State U :=
  (s.setCode i { x with ctx := moved vars x.thread y.ctx x.ctx }).acquire x.thread y.readable

def step (s : State U) : Action U → Option (State U)
  | .write i l key v => do
    let x ← s.code i
    if Local.usable key then
      some ((s.setCode i { x with ctx := x.ctx.setattr x.thread l key v }).acquire x.thread {⟨l, key, v⟩})
    else none
  | .delete i l key => do
    let x ← s.code i
    if Local.usable key then
      match x.ctx.delattr x.thread l key with
      | .ok c => some (s.setCode i { x with ctx := c })
      | .error _ => some s
    else none
  | .spawn i j t => do
    let x ← s.code i
    if (s.code j).isNone then some (s.setCode j ⟨t, x.ctx⟩) else none
  | .copy i j => do
    let x ← s.code i
    if (s.code j).isNone then some (s.setCode j x) else none
  | .syncToAsync i j t => do
    let x ← s.code i
    if (s.code j).isNone then some (hop vars s x j t x.ctx) else none
  | .asyncToSync i j t e base => do
    let x ← s.code i
    let s := setCurrent s i x (some e)
    let x := x.setCurrent (some e)
    if (s.code j).isNone then
      match base with
      | .caller => some (hop vars s x j t x.ctx)
      | .empty => some (hop vars s x j t ∅)
      | .inherited m => (s.code m).map fun y => hop vars s x j t y.ctx
    else none
  | .endSyncToAsync j i => do
    let y ← s.code j
    let x ← s.code i
    some (handBack vars s y i x)
  | .endAsyncToSync j i old => do
    let y ← s.code j
    let x ← s.code i
    let s' := handBack vars s y i x
    match (restoreContext vars x.thread y.ctx x.ctx).2 with
    | some _ => some s'
    | none => some (setCurrent s' i { x with ctx := moved vars x.thread y.ctx x.ctx } old)

/-- The pieces of code and their contexts. -/
def machine : Machine (State U) (Action U) := ⟨step vars⟩

/-- Every `Local` storage of the context that holds data belongs to the thread that runs the code. -/
def Code.Owned (x : Code U) : Prop :=
  ∀ l st key v, x.ctx.data l = some st → st.data key = some v → st.threadId = x.thread

/-- The condition on the steps: the context that a hop moves, on the way in or back, is owned by the thread from
which it is moved. -/
def MovesOwn (s : State U) : Action U → Prop
  | .syncToAsync i _ _ => ∀ x, s.code i = some x → x.Owned
  | .asyncToSync i _ _ e _ => ∀ x, s.code i = some x → (x.setCurrent (some e)).Owned
  | .endSyncToAsync j _ | .endAsyncToSync j _ _ => ∀ y, s.code j = some y → y.Owned
  | _ => True

/-- Every piece of data is tagged with a thread that has acquired it. -/
def Tagged (s : State U) : Prop :=
  ∀ i x l st key v, s.code i = some x → x.ctx.data l = some st → st.data key = some v →
    ⟨l, key, v⟩ ∈ s.acquired st.threadId

end

variable {U : Type} {vars : UserVars U}

theorem mem_readable {x : Code U} {l : LocalId} {key : String} {v : l.Attr U} :
    (⟨l, key, v⟩ : Fact U) ∈ x.readable ↔ ∃ st, x.ctx.data l = some st ∧ st.threadId = x.thread ∧ st.data key = some v :=
  Context.visible_iff

/-! ### Steps -/

/-- A step of one piece of code, whose thread acquires `p`. -/
theorem Tagged.set {s : State U} (h : Tagged s) {i : CodeId} {x : Code U} {t : ThreadId} {p : Set (Fact U)}
    (hx : ∀ l st key v, x.ctx.data l = some st → st.data key = some v →
      (⟨l, key, v⟩ : Fact U) ∈ s.acquired st.threadId ∨ st.threadId = t ∧ (⟨l, key, v⟩ : Fact U) ∈ p) :
    Tagged ((s.setCode i x).acquire t p) := by
  intro j y l st key v hy hst hv
  rw [State.code_acquire, State.code_setCode] at hy
  rw [State.acquired_acquire, State.acquired_setCode]
  have hcases : (⟨l, key, v⟩ : Fact U) ∈ s.acquired st.threadId ∨ st.threadId = t ∧ (⟨l, key, v⟩ : Fact U) ∈ p := by
    split at hy
    · cases hy
      exact hx l st key v hst hv
    · exact Or.inl (h j y l st key v hy hst hv)
  split
  · rename_i ht
    rw [ht] at hcases
    exact hcases.imp id And.right
  · rename_i ht
    exact hcases.resolve_right fun hc => ht hc.1

theorem Tagged.setCode {s : State U} (h : Tagged s) {i : CodeId} {x : Code U}
    (hx : ∀ l st key v, x.ctx.data l = some st → st.data key = some v → (⟨l, key, v⟩ : Fact U) ∈ s.acquired st.threadId) :
    Tagged (s.setCode i x) := by
  intro j y l st key v hy hst hv
  rw [State.code_setCode] at hy
  split at hy
  · cases hy
    exact hx l st key v hst hv
  · exact h j y l st key v hy hst hv

theorem tagged_setattr {s : State U} (h : Tagged s) {i : CodeId} {x : Code U} (hx : s.code i = some x) (j : CodeId)
    (l : LocalId) (key : String) (v : l.Attr U) :
    Tagged ((s.setCode j { x with ctx := x.ctx.setattr x.thread l key v }).acquire x.thread {⟨l, key, v⟩}) := by
  refine h.set fun m st key' w hst hw => ?_
  by_cases hm : m = l
  · subst hm
    simp only [Context.setattr, Context.data_setData, Option.some.injEq] at hst
    subst hst
    by_cases hk : key' = key
    · subst hk
      simp only [Function.update_self] at hw
      cases hw
      exact Or.inr ⟨rfl, rfl⟩
    · -- the attributes that were readable are kept
      simp only [Function.update_of_ne hk] at hw
      obtain ⟨st, hst, ht, hw⟩ := Context.data_storage.1 hw
      exact Or.inl (ht ▸ h i x m st key' w hx hst hw)
  · simp only [Context.setattr] at hst
    rw [Context.data_setData_ne _ _ hm] at hst
    exact Or.inl (h i x m st key' w hx hst hw)

theorem tagged_delattr {s : State U} (h : Tagged s) {i : CodeId} {x : Code U} (hx : s.code i = some x) {l : LocalId}
    {key : String} {c : Context U} (hc : x.ctx.delattr x.thread l key = .ok c) :
    Tagged (s.setCode i { x with ctx := c }) := by
  unfold Context.delattr at hc
  split at hc <;> cases hc
  refine h.setCode fun m st key' w hst hw => ?_
  by_cases hm : m = l
  · subst hm
    simp only [Context.data_setData, Option.some.injEq] at hst
    subst hst
    by_cases hk : key' = key
    · subst hk
      simp only [Function.update_self] at hw
      cases hw
    · simp only [Function.update_of_ne hk] at hw
      obtain ⟨st, hst, ht, hw⟩ := Context.data_storage.1 hw
      exact ht ▸ h i x m st key' w hx hst hw
  · rw [Context.data_setData_ne _ _ hm] at hst
    exact h i x m st key' w hx hst hw

/-- **Moving a context** that its thread owns: the data is what the code could read. -/
theorem moved_data {x : Code U} (hown : x.Owned) {t : ThreadId} {cur : Context U} {l : LocalId}
    {st : Storage (l.Attr U)} {key : String} {v : l.Attr U} (hst : (moved vars t x.ctx cur).data l = some st)
    (hv : st.data key = some v) :
    cur.data l = some st ∨ st.threadId = t ∧ (⟨l, key, v⟩ : Fact U) ∈ x.readable := by
  rcases data_restoreContext_cases hst with hcur | ⟨st', hst', rfl⟩
  · exact Or.inl hcur
  · exact Or.inr ⟨rfl, mem_readable.2 ⟨st', hst', hown l st' key v hst' hv, hv⟩⟩

theorem tagged_hop {s : State U} (h : Tagged s) {x : Code U} (hown : x.Owned) (j : CodeId) (t : ThreadId)
    {base : Context U} (hbase : ∀ l st key v, base.data l = some st → st.data key = some v →
      (⟨l, key, v⟩ : Fact U) ∈ s.acquired st.threadId) : Tagged (hop vars s x j t base) :=
  h.set fun l st key v hst hv => (moved_data hown hst hv).imp (fun hb => hbase l st key v hb hv) id

theorem tagged_handBack {s : State U} (h : Tagged s) {x y : Code U} {i : CodeId} (hown : y.Owned)
    (hx : s.code i = some x) : Tagged (handBack vars s y i x) :=
  h.set fun l st key v hst hv => (moved_data hown hst hv).imp (fun hb => h i x l st key v hx hb hv) id

theorem tagged_setCurrent {s : State U} (h : Tagged s) {i : CodeId} {x : Code U} (hx : s.code i = some x)
    (e : Option Nat) : Tagged (setCurrent s i x e) :=
  tagged_setattr h hx i .executors "current" e

theorem code_setCurrent (s : State U) (i : CodeId) (x : Code U) (e : Option Nat) :
    (setCurrent s i x e).code i = some (x.setCurrent e) := by
  rw [setCurrent, State.code_acquire, State.code_setCode, if_pos rfl]

theorem tagged_step {s s' : State U} {a : Action U} (h : Tagged s) (hown : MovesOwn s a)
    (hstep : (machine vars).step s a = some s') : Tagged s' := by
  cases a with
  | write i l key v =>
    simp only [machine, step, Option.bind_eq_bind, Option.bind_eq_some_iff, Option.ite_none_right_eq_some,
      Option.some.injEq] at hstep
    obtain ⟨x, hx, -, rfl⟩ := hstep
    exact tagged_setattr h hx i l key v
  | delete i l key =>
    simp only [machine, step, Option.bind_eq_bind, Option.bind_eq_some_iff, Option.ite_none_right_eq_some] at hstep
    obtain ⟨x, hx, -, hstep⟩ := hstep
    split at hstep <;> cases hstep
    · exact tagged_delattr h hx ‹_›
    · exact h
  | spawn i j t =>
    simp only [machine, step, Option.bind_eq_bind, Option.bind_eq_some_iff, Option.ite_none_right_eq_some,
      Option.some.injEq] at hstep
    obtain ⟨x, hx, -, rfl⟩ := hstep
    exact h.setCode fun l st key v => h i x l st key v hx
  | copy i j =>
    simp only [machine, step, Option.bind_eq_bind, Option.bind_eq_some_iff, Option.ite_none_right_eq_some,
      Option.some.injEq] at hstep
    obtain ⟨x, hx, -, rfl⟩ := hstep
    exact h.setCode fun l st key v => h i x l st key v hx
  | syncToAsync i j t =>
    simp only [machine, step, Option.bind_eq_bind, Option.bind_eq_some_iff, Option.ite_none_right_eq_some,
      Option.some.injEq] at hstep
    obtain ⟨x, hx, -, rfl⟩ := hstep
    exact tagged_hop h (hown x hx) j t fun l st key v => h i x l st key v hx
  | asyncToSync i j t e base =>
    simp only [machine, step, Option.bind_eq_bind, Option.bind_eq_some_iff, Option.ite_none_right_eq_some] at hstep
    obtain ⟨x, hx, -, hstep⟩ := hstep
    have h' := tagged_setCurrent h hx (some e)
    have hx' := code_setCurrent s i x (some e)
    cases base with
    | caller =>
      cases hstep
      exact tagged_hop h' (hown x hx) j t fun l st key v => h' i _ l st key v hx'
    | empty =>
      cases hstep
      exact tagged_hop h' (hown x hx) j t nofun
    | inherited m =>
      obtain ⟨y, hy, rfl⟩ := Option.map_eq_some_iff.1 hstep
      exact tagged_hop h' (hown x hx) j t fun l st key v => h' m y l st key v hy
  | endSyncToAsync j i =>
    simp only [machine, step, Option.bind_eq_bind, Option.bind_eq_some_iff, Option.some.injEq] at hstep
    obtain ⟨y, hy, x, hx, rfl⟩ := hstep
    exact tagged_handBack h (hown y hy) hx
  | endAsyncToSync j i old =>
    simp only [machine, step, Option.bind_eq_bind, Option.bind_eq_some_iff] at hstep
    obtain ⟨y, hy, x, hx, hstep⟩ := hstep
    have h' : Tagged (handBack vars s y i x) := tagged_handBack h (hown y hy) hx
    split at hstep <;> cases hstep
    · exact h'
    · exact tagged_setCurrent h' (by rw [handBack, State.code_acquire, State.code_setCode, if_pos rfl]) old

theorem tagged_init (i : CodeId) (t : ThreadId) : Tagged (State.init (U := U) i t) := by
  intro j x l st key v hx hst
  simp only [State.init, Function.update_apply] at hx
  split at hx <;> cases hx
  cases hst

/-! ### Runs -/

/-- **A `Local` shows no data that was merely inherited**, in every run in which a hop moves only contexts that
their thread owns: what a piece of code can read was written on its thread, or handed over to it by a hop from code
that could read it. -/
theorem reads_only_acquired {i₀ : CodeId} {t₀ : ThreadId} {s : State U} {as : List (Action U)}
    (hmeets : (machine vars).Meets MovesOwn (State.init i₀ t₀) as)
    (hrun : (machine vars).run (State.init i₀ t₀) as = some s) {i : CodeId} {x : Code U} (hx : s.code i = some x)
    {f : Fact U} (hf : x.Reads f) : f ∈ s.acquired x.thread := by
  have h : Tagged s := (machine vars).run_invariant_of_meets (fun _ _ _ h hm hs => tagged_step h hm hs)
    (tagged_init i₀ t₀) hmeets hrun
  obtain ⟨st, hst, ht, hv⟩ := Context.visible_iff.1 hf
  exact ht ▸ h i x f.loc st f.key f.value hx hst hv

/-- **A hop shows all the data of the context it moves**, whoever owns it. -/
theorem hop_reveals (s : State U) {x : Code U} (j : CodeId) (t : ThreadId) {base : Context U} {l : LocalId}
    {st : Storage (l.Attr U)} {key : String} {v : l.Attr U} (hr : ¬ Raises vars x.ctx base)
    (hst : x.ctx.data l = some st) (hv : st.data key = some v) :
    ∃ y, (hop vars s x j t base).code j = some y ∧ y.Reads ⟨l, key, v⟩ := by
  refine ⟨⟨t, moved vars t x.ctx base⟩, ?_, Context.visible_iff.2 ⟨rehome t st, data_restoreContext hr hst, rfl, hv⟩⟩
  rw [hop, State.code_acquire, State.code_setCode, if_pos rfl]

/-! ### A thread that inherits its context -/

/-- Thread 1 writes an attribute. -/
def writeOne : Action Nat := .write 0 (.user 0) "x" 1

theorem reads_only_acquired_hop : ∃ s x, (machine numbers).run (State.init 0 1) [writeOne, .syncToAsync 0 1 3] = some s ∧
    s.code 1 = some x ∧ x.Reads ⟨.user 0, "x", 1⟩ ∧ (⟨.user 0, "x", 1⟩ : Fact Nat) ∈ s.acquired x.thread := by
  refine ⟨_, _, rfl, rfl, rfl, @reads_only_acquired Nat numbers 0 1 _ [writeOne, .syncToAsync 0 1 3] ?_ rfl 1 _ rfl _ rfl⟩
  refine ⟨trivial, fun s hs => ⟨fun x hx l st key v hst _ => ?_, fun _ _ => trivial⟩⟩
  cases hs
  cases hx
  by_cases hl : l = .user 0
  · subst hl
    cases hst
    rfl
  · simp only [Context.setattr] at hst
    rw [Context.data_setData_ne _ _ hl] at hst
    cases hst

/-- **Inherited data is shown**: thread 2 is started with a copy of the context of thread 1 and cannot read the
attribute, and the function it reaches by `sync_to_async` can. -/
theorem inherited_data_shown : ¬ ∀ (as : List (Action Nat)) (s : State Nat) (i : CodeId) (x : Code Nat) (f : Fact Nat),
    (machine numbers).run (State.init 0 1) as = some s → s.code i = some x → x.Reads f →
    f ∈ s.acquired x.thread := by
  intro h
  have hshown := h [writeOne, .spawn 0 1 2, .syncToAsync 1 2 3] _ 2 _ ⟨.user 0, "x", 1⟩ rfl rfl rfl
  rcases hshown with hnone | hread
  · exact hnone
  · cases hread

end Asgiref.Sync.Visibility
