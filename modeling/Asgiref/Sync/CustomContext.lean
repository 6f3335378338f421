import Asgiref.Lib.Machine
import Asgiref.Sync.RestoreContext

/-!
# Runs in a context of the user's own

A context that is passed to `sync_to_async(f, context=ctx)` and to `asyncio` tasks: every run changes it in place, and
`_restore_context` on the way to a worker re-homes its storages there, with nothing on the way back.

* `stored`, `shown`: the attributes of a `Local` in a context, and those that a thread can see;
* `Op`: what a run does with the attributes; the names that `Local` and `_CVar` keep for themselves are none;
* `Run`, `step`, `machine`: functions on workers and tasks on the loop's thread, one after the other;
* `Follows`: a run sees what the run before it left, and its writes take no other attribute away;
* `follows_iff_visibleToTask`: so it is in exactly the sequences in which no task of the loop starts while the
  attributes belong to another thread; `lookup_starts`: a plain `ContextVar` is always as it was left.
-/

namespace Asgiref.Sync.CustomContext

open Asgiref.Python Asgiref.Lib

variable {U : Type}

/-- The attributes of the `Local` in the context, whoever owns them. -/
def stored (c : Context U) (l : LocalId) : String → Option (l.Attr U) :=
  match c.data l with
  | some st => st.data
  | none => fun _ => none

/-- The attributes that the thread can see. -/
def shown (c : Context U) (tid : ThreadId) (l : LocalId) : String → Option (l.Attr U) := (c.storage tid l).data

/-- All attributes that the context has belong to the thread. -/
def Visible (c : Context U) (tid : ThreadId) (l : LocalId) : Prop :=
  ∀ st key v, c.data l = some st → st.data key = some v → st.threadId = tid

theorem visible_iff_shown {c : Context U} {tid : ThreadId} {l : LocalId} :
    Visible c tid l ↔ shown c tid l = stored c l := by
  unfold Visible shown stored Context.storage
  cases h : c.data l with
  | none => exact ⟨fun _ => rfl, fun _ => nofun⟩
  | some st =>
    by_cases ht : st.threadId = tid
    · simp only [ne_eq, ht, not_true_eq_false, if_false, iff_true]
      rintro st' key v ⟨⟩ -
      exact ht
    · simp only [ne_eq, ht, not_false_eq_true, if_true]
      constructor
      · intro hv
        funext key
        by_contra hne
        obtain ⟨v, hv'⟩ := Option.ne_none_iff_exists'.1 fun hnone : st.data key = none => hne hnone.symm
        exact ht (hv st key v rfl hv')
      · rintro heq st' key v ⟨⟩ hv
        rw [← congrFun heq key] at hv
        cases hv

/-- What a run does in its context. -/
inductive Op (U : Type) where
  | get (l : LocalId) (key : Local.Name)
  | set (l : LocalId) (key : Local.Name) (v : l.Attr U)
  | del (l : LocalId) (key : Local.Name)
  /-- A plain `ContextVar` is set. -/
  | setVar (x : Nat) (v : U)

def Op.apply (tid : ThreadId) (c : Context U) : Op U → Context U
  | .get _ _ => c
  | .set l key v => c.setattr tid l key v
  | .del l key =>
    match c.delattr tid l key with
    | .ok c' => c'
    | .error _ => c
  | .setVar x v => AList.insert (Var.user x) v c

/-- The operations, one after the other. -/
def exec (tid : ThreadId) (c : Context U) (ops : List (Op U)) : Context U := ops.foldl (Op.apply tid) c

/-- A run in the context. -/
inductive Run (U : Type) where
  /-- A function that `sync_to_async` runs on a worker. -/
  | worker (tid : ThreadId) (ops : List (Op U))
  /-- A task on the loop. -/
  | task (ops : List (Op U))

structure State (U : Type) where
  ctx : Context U
  /-- History: what the last run could see when it ended. -/
  left : (l : LocalId) → String → Option (l.Attr U)

/-- The context, and what can be seen of it on the loop's thread. -/
def State.init (loopThread : ThreadId) (c : Context U) : State U := { ctx := c, left := shown c loopThread }

section

variable (vars : UserVars U) (loopThread : ThreadId)

def Run.thread : Run U → ThreadId
  | .worker tid _ => tid
  | .task _ => loopThread

def Run.ops : Run U → List (Op U)
  | .worker _ ops | .task ops => ops

/-- The context in which the code of the run starts; `none` where a comparison in `_restore_context` has raised, and
the function is not called. -/
def starts (c : Context U) : Run U → Option (Context U)
  | .worker tid _ => if (restoreContext vars tid c c).2.isNone then some (restoreContext vars tid c c).1 else none
  | .task _ => some c

def step (s : State U) (r : Run U) : Option (State U) :=
  match starts vars s.ctx r with
  | some c =>
    let c' := exec (r.thread loopThread) c r.ops
    some { ctx := c', left := shown c' (r.thread loopThread) }
  | none => some { s with ctx := (restoreContext vars (r.thread loopThread) s.ctx s.ctx).1 }

/-- The runs in one context, which do not overlap. -/
def machine : Machine (State U) (Run U) := ⟨step vars loopThread⟩

/-- No write to one attribute of `l` takes another away. -/
def Keeps (l : LocalId) (tid : ThreadId) : Context U → List (Op U) → Prop
  | _, [] => True
  | c, op :: ops =>
    (∀ key v, op = .set l key v → ∀ key', key' ≠ key.val → stored (op.apply tid c) l key' = stored c l key') ∧
      Keeps l tid (op.apply tid c) ops

/-- **The run follows the one before it**: it sees what that one left of `l`, and its writes take no other attribute
of `l` away. -/
structure Follows (l : LocalId) (s : State U) (r : Run U) : Prop where
  sees : ∀ c, starts vars s.ctx r = some c → shown c (r.thread loopThread) l = s.left l
  keeps : ∀ c, starts vars s.ctx r = some c → Keeps l (r.thread loopThread) c r.ops

/-- A task of the loop does not start while the attributes of `l` belong to another thread. -/
def VisibleToTask (l : LocalId) (s : State U) : Run U → Prop
  | .task _ => Visible s.ctx loopThread l
  | .worker _ _ => True

end

/-! ### Operations of the owner -/

section

variable {c : Context U} {tid : ThreadId} {l : LocalId}

theorem visible_of_threadId {st : Storage (l.Attr U)} (h : c.data l = some st) (ht : st.threadId = tid) :
    Visible c tid l := by
  rintro st' key v hst -
  cases h.symm.trans hst
  exact ht

/-- What is set belongs to the thread that sets it. -/
theorem visible_setData {st : Storage (l.Attr U)} (ht : st.threadId = tid) : Visible (c.setData l st) tid l :=
  visible_of_threadId (Context.data_setData c l st) ht

theorem visible_congr {c' : Context U} (h : c'.data l = c.data l) (hv : Visible c tid l) : Visible c' tid l := by
  intro st key v hst
  exact hv st key v (h ▸ hst)

theorem visible_apply (h : Visible c tid l) (op : Op U) : Visible (op.apply tid c) tid l := by
  cases op with
  | get => exact h
  | set k key v =>
    by_cases hk : l = k
    · subst hk
      exact visible_setData rfl
    · exact visible_congr (Context.data_setData_ne c _ hk) h
  | del k key =>
    simp only [Op.apply, Context.delattr]
    cases (c.storage tid k).data key.val with
    | none => exact h
    | some v =>
      by_cases hk : l = k
      · subst hk
        exact visible_setData rfl
      · exact visible_congr (Context.data_setData_ne c _ hk) h
  | setVar x v => exact visible_congr (AList.lookup_insert_ne nofun) h

theorem visible_exec (h : Visible c tid l) (ops : List (Op U)) : Visible (exec tid c ops) tid l := by
  induction ops generalizing c with
  | nil => exact h
  | cons op ops ih => exact ih (visible_apply h op)

/-- A write of the owner. -/
theorem stored_set (h : Visible c tid l) (key : String) (v : l.Attr U) :
    stored (c.setattr tid l key v) l = Function.update (stored c l) key (some v) := by
  rw [← visible_iff_shown.1 h]
  unfold Context.setattr stored
  rw [Context.data_setData]
  rfl

theorem keeps_of_visible (h : Visible c tid l) (ops : List (Op U)) : Keeps l tid c ops := by
  induction ops generalizing c with
  | nil => trivial
  | cons op ops ih =>
    refine ⟨?_, ih (visible_apply h op)⟩
    rintro key v rfl key' hne
    show stored (c.setattr tid l key v) l key' = _
    rw [stored_set h, Function.update_of_ne hne]

end

/-! ### The hop to a worker -/

section

variable {vars : UserVars U} {c : Context U} {tid : ThreadId} {l : LocalId}

/-- With an exception or without, `_restore_context` leaves a storage of its own context alone or re-homes it. -/
theorem data_restoreContext_self {st : Storage (l.Attr U)} (h : c.data l = some st) :
    (restoreContext vars tid c c).1.data l = some st ∨ (restoreContext vars tid c c).1.data l = some (rehome tid st) := by
  have hmem := AList.mem_lookup_iff.1 (show c.lookup (.data l) = some st from h)
  obtain hl | ⟨w, hf, hl⟩ := lookup_copyLoop_cases (f := restoreVar vars tid) (m := c) c.nodupKeys hmem
  · exact Or.inl (hl.trans h)
  · rw [restoreVar_eq_some hf] at hl
    exact Or.inr hl

/-- With an exception or without, `_restore_context` changes no attributes. -/
theorem stored_restoreContext : stored (restoreContext vars tid c c).1 l = stored c l := by
  unfold stored
  cases h : c.data l with
  | none =>
    have hnone : (restoreContext vars tid c c).1.data l = none := (lookup_restoreContext_of_none h).trans h
    rw [hnone]
  | some st =>
    obtain hl | hl := @data_restoreContext_self U vars c tid l st h
    · rw [hl]
    · rw [hl]
      rfl

/-- After a hop without an exception the worker sees all attributes. -/
theorem visible_restoreContext (hr : ¬ Raises vars c c) : Visible (restoreContext vars tid c c).1 tid l := by
  cases h : c.data l with
  | none =>
    have hnone : (restoreContext vars tid c c).1.data l = none := (lookup_restoreContext_of_none h).trans h
    intro st key v hst
    rw [hnone] at hst
    cases hst
  | some st => exact visible_of_threadId (data_restoreContext hr h) (threadId_rehome tid st)

theorem starts_worker {ops : List (Op U)} {c' : Context U} (h : starts vars c (.worker tid ops) = some c') :
    ¬ Raises vars c c ∧ c' = (restoreContext vars tid c c).1 := by
  unfold starts at h
  dsimp only at h
  by_cases hnone : (restoreContext vars tid c c).2.isNone
  · rw [if_pos hnone] at h
    cases h
    exact ⟨restoreContext_snd_eq_none.1 (Option.isNone_iff_eq_none.1 hnone), rfl⟩
  · rw [if_neg hnone] at h
    cases h

end

/-! ### One run -/

section

variable {vars : UserVars U} {loopThread : ThreadId} {l : LocalId} {s s' : State U} {r : Run U}

/-- The code of a run starts with all attributes there, and with all of them in sight of its thread. -/
theorem starts_spec {c : Context U} (hC : VisibleToTask loopThread l s r) (h : starts vars s.ctx r = some c) :
    Visible c (r.thread loopThread) l ∧ stored c l = stored s.ctx l := by
  cases r with
  | worker tid ops =>
    obtain ⟨hr, rfl⟩ := starts_worker h
    exact ⟨visible_restoreContext hr, stored_restoreContext⟩
  | task ops =>
    cases h
    exact ⟨hC, rfl⟩

theorem follows_of_visibleToTask (hs : stored s.ctx l = s.left l) (hC : VisibleToTask loopThread l s r) :
    Follows vars loopThread l s r where
  sees c h := by
    obtain ⟨hvis, hst⟩ := starts_spec hC h
    rw [visible_iff_shown.1 hvis, hst, hs]
  keeps c h := keeps_of_visible (starts_spec hC h).1 r.ops

/-- What a run leaves is all there is. -/
theorem stored_step (hs : stored s.ctx l = s.left l) (hC : VisibleToTask loopThread l s r)
    (h : step vars loopThread s r = some s') : stored s'.ctx l = s'.left l := by
  unfold step at h
  cases hst : starts vars s.ctx r with
  | some c =>
    rw [hst] at h
    cases h
    exact (visible_iff_shown.1 (visible_exec (starts_spec hC hst).1 r.ops)).symm
  | none =>
    rw [hst] at h
    cases h
    exact stored_restoreContext.trans hs

/-- A task that starts while the attributes are out of its sight does not see what was left. -/
theorem not_follows (hs : stored s.ctx l = s.left l) (hC : ¬ VisibleToTask loopThread l s r) :
    ¬ Follows vars loopThread l s r := by
  cases r with
  | worker tid ops => exact absurd trivial hC
  | task ops =>
    intro hf
    exact hC (visible_iff_shown.2 ((hf.sees s.ctx rfl).trans hs.symm))

/-- A `ContextVar` of the user is as the run before left it, on every thread. -/
theorem lookup_starts {c : Context U} {x : Nat} (h : starts vars s.ctx r = some c) :
    c.lookup (.user x) = s.ctx.lookup (.user x) := by
  cases r with
  | task ops =>
    cases h
    rfl
  | worker tid ops =>
    obtain ⟨hr, rfl⟩ := starts_worker h
    cases hx : s.ctx.lookup (.user x) with
    | none => exact (lookup_restoreContext_of_none hx).trans hx
    | some v =>
      obtain hl | ⟨w, -, -, hl⟩ := lookup_restoreContext (t := tid) hr hx
      · exact hl
      · exact hl.trans hx

end

/-! ### Every sequence of runs -/

/-- **When the attributes follow the context.**  In a sequence of runs in a context, whose attributes the loop's
thread could see at first, every run sees exactly what the run before it left and takes no attribute away by
setting another, iff no task of the loop starts while the context has attributes that belong to another thread. -/
theorem follows_iff_visibleToTask {vars : UserVars U} {loopThread : ThreadId} {l : LocalId} {ctx : Context U}
    {runs : List (Run U)} {s : State U} (hctx : Visible ctx loopThread l)
    (hrun : (machine vars loopThread).run (State.init loopThread ctx) runs = some s) :
    (machine vars loopThread).Along (fun s r _ => Follows vars loopThread l s r) (State.init loopThread ctx) runs ↔
      (machine vars loopThread).Meets (VisibleToTask loopThread l) (State.init loopThread ctx) runs := by
  have hinit : stored (State.init loopThread ctx).ctx l = (State.init loopThread ctx).left l :=
    (visible_iff_shown.1 hctx).symm
  refine Machine.along_iff_meets (machine vars loopThread) (K := fun s => stored s.ctx l = s.left l) ?_ ?_ hinit hrun
  · intro s r s' hs hC hstep
    exact ⟨follows_of_visibleToTask hs hC, stored_step hs hC hstep⟩
  · intro s r s' hs hC _
    exact not_follows hs hC

/-- A `Local` with the attribute `a`, set on the loop's thread `0`. -/
def sampleContext : Context Nat := Context.setattr ∅ 0 (.user 0) "a" 1

theorem visible_sampleContext : Visible sampleContext 0 (.user 0) := visible_setData rfl

def nameA : Local.Name := ⟨"a", rfl⟩
def nameB : Local.Name := ⟨"b", rfl⟩
def nameC : Local.Name := ⟨"c", rfl⟩

/-- A task, then two workers. -/
def taskThenWorkers : List (Run Nat) :=
  [.task [.set (.user 0) nameB 2], .worker 1 [.get (.user 0) nameB, .del (.user 0) nameA], .worker 2 [.set (.user 0) nameC 3]]

theorem follows_taskThenWorkers : ∃ s, (machine numbers 0).run (State.init 0 sampleContext) taskThenWorkers = some s ∧
    (machine numbers 0).Along (fun s r _ => Follows numbers 0 (.user 0) s r) (State.init 0 sampleContext)
      taskThenWorkers := by
  refine ⟨_, rfl, (follows_iff_visibleToTask visible_sampleContext rfl).2 ?_⟩
  refine ⟨visible_sampleContext, fun s' _ => ⟨trivial, fun s'' _ => ⟨trivial, fun _ _ => trivial⟩⟩⟩

/-- **A task after a worker.**  A worker that does nothing hides `a` from the task, and when the task sets `b`, `a`
is gone for good. -/
theorem hidden_after_worker :
    let runs : List (Run Nat) := [.worker 1 [], .task [.set (.user 0) nameB 2]]
    Visible sampleContext 0 (.user 0) ∧ stored sampleContext (.user 0) "a" = some 1 ∧
      (∃ s, (machine numbers 0).run (State.init 0 sampleContext) runs = some s ∧
        stored s.ctx (.user 0) "a" = none) ∧
      ¬ (machine numbers 0).Along (fun s r _ => Follows numbers 0 (.user 0) s r) (State.init 0 sampleContext) runs ∧
      ∃ s, (machine numbers 0).run (State.init 0 sampleContext) [.worker 1 []] = some s ∧
        s.left (.user 0) "a" = some 1 ∧ shown s.ctx 0 (.user 0) "a" = none ∧
        ¬ Keeps (.user 0) 0 s.ctx [.set (.user 0) nameB 2] := by
  refine ⟨visible_sampleContext, rfl, ⟨_, rfl, rfl⟩, ?_, ⟨_, rfl, rfl, rfl, ?_⟩⟩
  · intro h
    have hf := ((h _ rfl).2 _ rfl).1
    have hsees : none = some 1 := congrFun (hf.sees _ rfl) "a"
    cases hsees
  · intro h
    have hkeep : none = some 1 := h.1 nameB 2 rfl "a" (by decide)
    cases hkeep

end Asgiref.Sync.CustomContext
