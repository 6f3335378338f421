import Asgiref.Lib.Simulation
import Asgiref.Local.Objects

/-!
# A `Local` as a namespace

Any attributes of one `Local`, set, read and deleted on one thread and in one context.

* `Op.on`, `access`: namespaces, one for each mode if the `Local` is thread-critical;
* `undisturbed`: the condition on a step, that it does not get at a part of the implementation, or after one that the
  user has replaced;
* `Rep`: how the storage of a `Local` comes to namespaces; `rep_access` is the step lemma;
* `namespace_of_undisturbed`: what the operations end with is what they do on namespaces.
-/

namespace Asgiref.Local.Objects

open Asgiref.Python Asgiref.Lib Asgiref.Sync

variable {U : Type}

inductive Op (U : Type) where
  | get (key : String)
  | set (key : String) (v : U)
  | delete (key : String)

namespace Op

def key : Op U → String
  | get key | set key _ | delete key => key

/-- The name is none that `Local.__setattr__` reserves, nor one of the class `Local` or of `object`. -/
def Named (o : Op U) : Prop := o.key ∉ onObject ∧ o.key ∉ onClass

instance (o : Op U) : Decidable o.Named := inferInstanceAs (Decidable (_ ∧ _))

/-- What a namespace makes of the operation. -/
def on (d : String → Option U) : Op U → (String → Option U) × Outcome U
  | get key =>
    (d, match d key with
      | some v => .ok (some (.value v))
      | none => .error .attributeError)
  | set key v => (Function.update d key (some v), .ok none)
  | delete key =>
    match d key with
    | some _ => (Function.update d key none, .ok none)
    | none => (d, .error .attributeError)

/-- The operation on the thread 0 and in the context 0. -/
def toAction (running : Bool) (l : LocalObj) : Op U → Action U
  | get key => .read 0 0 running l key
  | set key v => .write 0 0 running l key v
  | delete key => .delete 0 0 running l key

/-- The operation does not get at the `ContextVar` in a `_CVar`; `_CVar.__delattr__` never does. -/
def avoidsData : Op U → Bool
  | get key | set key _ => key ≠ "_data"
  | delete _ => true

/-- The operation on what `_lock_storage` has yielded. -/
def onTarget (s : State U) (x : Context U) (y : Thread U) (t : Target U) : Op U → State U × Outcome U
  | get key => (s, (getOn s x y t key).map some)
  | set key v => ended (setOn s 0 x 0 y t key v)
  | delete key => ended (deleteOn s 0 x 0 y t key)

end Op

/-- An operation by code with a running loop, or without. -/
abbrev Access (U : Type) := Bool × Op U

abbrev Namespaces (U : Type) := Bool → String → Option U

/-- The namespace an access is to. -/
def mode : LocalObj → Bool → Bool
  | .shared _, _ => false
  | .critical _, running => running

/-- What a `Local` should make of the access. -/
def access (l : LocalObj) (ns : Namespaces U) (a : Access U) : Namespaces U × Outcome U :=
  let p := a.2.on (ns (mode l a.1))
  (Function.update ns (mode l a.1) p.1, p.2)

/-- What the `Local` makes of it. -/
def performed (vars : Sync.UserVars U) (l : LocalObj) (s : State U) (a : Access U) : Option (State U × Outcome U) :=
  perform s vars (a.2.toAction a.1 l)

/-- A thread, and a `Local()`. -/
def fresh (tid : ThreadId) : State U := { State.init with threads := [some { ident := tid }], locals := [0], cvars := 1 }

example (vars : Sync.UserVars U) (tid : ThreadId) : (machine vars).run .init [.start tid, .newLocal] = some (fresh tid) :=
  rfl

/-- What the thread has under `cvar`. -/
def cvarAttr (s : State U) (n : Nat) : Option (Obj U) := (s.thread 0).bind fun y => y.attrs n "cvar"

/-- **The condition on a step.**  An operation on a `_CVar` leaves its `_data` alone; one on the attributes of the thread
leaves the `_CVar` there alone; and no value of the user is in the place of the `_CVar`. -/
def undisturbed (s : State U) (a : Access U) : LocalObj → Bool
  | .shared _ => a.2.avoidsData
  | .critical n =>
    match a.1, cvarAttr s n with
    | true, some (.value _) => false
    | true, _ => a.2.avoidsData
    | false, some (.cvar _) => a.2.key ≠ "cvar"
    | false, _ => true

/-! ### What the storage holds -/

/-- The `_CVar` has the attributes in the context. -/
structure CVarHas (s : State U) (x : Context U) (y : Thread U) (k : CVarNo) (d : String → Option U) : Prop where
  lt : k < s.cvars
  data : s.data k = none
  attrs : (x.storage y.ident (.user k)).data = d

/-- The attribute `cvar` of the thread, with what sync code has set under that name and the attributes for async code. -/
def CVarAttr (s : State U) (x : Context U) (y : Thread U) (o : Option U) (d : String → Option U) : Option (Obj U) → Prop
  | none => o = none ∧ d = fun _ => none
  | some (.value v) => o = some v ∧ d = fun _ => none
  | some (.cvar k) => o = none ∧ CVarHas s x y k d
  | some (.contextVar _) => False

def Holds (s : State U) (x : Context U) (y : Thread U) (ns : Namespaces U) : LocalObj → Prop
  | .shared n => ∃ k, s.locals[n]? = some k ∧ CVarHas s x y k (ns false)
  | .critical n => (∀ key, key ≠ "cvar" → y.attrs n key = (ns false key).map .value) ∧
    CVarAttr s x y (ns false "cvar") (ns true) (y.attrs n "cvar")

/-- Nothing is known of a `_CVar` that has not been made. -/
def NoneYet (s : State U) (x : Context U) : Prop := ∀ k, s.cvars ≤ k → s.data k = none ∧ x.data (.user k) = none

/-- The storage of the `Local` comes to the namespaces. -/
structure Rep (l : LocalObj) (s : State U) (ns : Namespaces U) : Prop where
  object : s.object l = fun _ => none
  storage : ∃ x y, s.contexts 0 = some x ∧ s.thread 0 = some y ∧ NoneYet s x ∧ Holds s x y ns l

section

variable {s : State U} {x : Context U} {y : Thread U} {l : LocalObj} {ns : Namespaces U}

theorem rep_fresh (tid : ThreadId) (h : l = .shared 0 ∨ ∃ n, l = .critical n) :
    Rep l (fresh tid : State U) fun _ _ => none := by
  refine ⟨rfl, ∅, { ident := tid }, rfl, rfl, fun k _ => ⟨rfl, rfl⟩, ?_⟩
  obtain rfl | ⟨n, rfl⟩ := h
  · exact ⟨0, rfl, Nat.zero_lt_one, rfl, rfl⟩
  · exact ⟨fun _ _ => rfl, rfl, rfl⟩

/-- An operation on a `_CVar`, which changes nothing but its variable in the context. -/
theorem onTarget_cvar {k : CVarNo} {d : String → Option U} (h : CVarHas s x y k d) (hx : s.contexts 0 = some x)
    {o : Op U} (ho : o.avoidsData = true) :
    ∃ x', o.onTarget s x y (.cvar k) = (s.setContext 0 x', (o.on d).2) ∧
      CVarHas (s.setContext 0 x') x' y k (o.on d).1 ∧ ∀ k', k' ≠ k → x'.data (.user k') = x.data (.user k') := by
  obtain ⟨hlt, hdata, rfl⟩ := h
  have hself : s.setContext 0 x = s := by
    unfold State.setContext
    rw [← hx, Function.update_eq_self]
  have hset : ∀ d', CVarHas (s.setContext 0 (x.setData (.user k) ⟨y.ident, d'⟩)) (x.setData (.user k) ⟨y.ident, d'⟩) y k d' ∧
      ∀ k', k' ≠ k → (x.setData (.user k) ⟨y.ident, d'⟩).data (.user k') = x.data (.user k') := fun d' =>
    ⟨⟨hlt, hdata, by rw [Context.storage_setData]⟩, fun k' hk => Context.data_setData_ne x _ (by simpa using hk)⟩
  cases o with
  | get key =>
    have hkey : key ≠ "_data" := by simpa [Op.avoidsData] using ho
    refine ⟨x, ?_, ⟨hlt, hdata, rfl⟩, fun _ _ => rfl⟩
    simp only [Op.onTarget, getOn, cvarGet, if_neg hkey, hdata, Context.getattr, Op.on, hself]
    cases (x.storage y.ident (.user k)).data key <;> rfl
  | set key v =>
    have hkey : key ≠ "_data" := by simpa [Op.avoidsData] using ho
    refine ⟨_, ?_, hset _⟩
    simp only [Op.onTarget, setOn, cvarSet, if_neg hkey, hdata, Context.setattr, Op.on, ended]
  | delete key =>
    simp only [Op.onTarget, deleteOn, cvarDelete, hdata, Context.delattr, Op.on]
    cases hv : (x.storage y.ident (.user k)).data key with
    | none =>
      refine ⟨x, ?_, ⟨hlt, hdata, rfl⟩, fun _ _ => rfl⟩
      rw [hself]
      rfl
    | some v => exact ⟨_, rfl, hset _⟩

/-- An operation on an attribute of the thread, which changes nothing else. -/
theorem onTarget_threadLocal {n : Nat} {d : String → Option U} (hi : s.thread 0 = some y) {o : Op U}
    (ho : y.attrs n o.key = (d o.key).map .value) :
    ∃ y', o.onTarget s x y (.threadLocal n) = (s.setThread 0 y', (o.on d).2) ∧ y'.ident = y.ident ∧
      y'.attrs n o.key = ((o.on d).1 o.key).map .value ∧
      ∀ key, key ≠ o.key → y'.attrs n key = y.attrs n key ∧ (o.on d).1 key = d key := by
  have hset : ∀ (key : String) (p : Option (Obj U)) k, k ≠ key → (y.setAttr n key p).attrs n k = y.attrs n k :=
    fun key p k hk => by rw [attrs_setAttr, if_neg fun h => hk h.2]
  have hself : s.setThread 0 y = s := setThread_self hi
  cases o with
  | get key =>
    refine ⟨y, ?_, rfl, ho, fun _ _ => ⟨rfl, rfl⟩⟩
    simp only [Op.key] at ho
    simp only [Op.onTarget, getOn, Op.on, hself, ho]
    cases d key <;> rfl
  | set key v =>
    refine ⟨_, rfl, rfl, ?_, fun k hk => ⟨hset key _ k hk, Function.update_of_ne hk _ _⟩⟩
    simp only [Op.key, Op.on, attrs_setAttr, Function.update_self, and_self, if_true, Option.map_some]
  | delete key =>
    simp only [Op.key] at ho
    simp only [Op.onTarget, deleteOn, Op.on, Op.key, ho]
    cases hd : d key with
    | none => exact ⟨y, by rw [hself]; rfl, rfl, by rw [ho], fun _ _ => ⟨rfl, rfl⟩⟩
    | some v =>
      refine ⟨_, rfl, rfl, ?_, fun k hk => ⟨hset key _ k hk, Function.update_of_ne hk _ _⟩⟩
      simp only [attrs_setAttr, Function.update_self, and_self, if_true, Option.map_none]

/-! ### Steps -/

variable {vars : Sync.UserVars U}

theorem performed_eq (hobject : s.object l = fun _ => none) (hx : s.contexts 0 = some x) (hy : s.thread 0 = some y)
    {a : Access U} (ha : a.2.Named) :
    performed vars l s a = (lockStorage s 0 y a.1 l).map fun p => a.2.onTarget p.1 x y p.2 := by
  obtain ⟨running, o⟩ := a
  obtain ⟨hon, hclass⟩ := ha
  have hname : isName o.key = true := by
    have hsub : initialParts ⊆ onObject := by decide
    simp only [isName, Bool.and_eq_true, decide_eq_true_eq]
    exact ⟨hclass, fun h => hon (hsub h)⟩
  cases o with
  | get key =>
    simp only [performed, Op.toAction, perform, hx, hy, Option.bind_eq_bind, Option.bind_some,
      if_pos (show isName key = true from hname), readLocal, hobject]
    rfl
  | set key v =>
    simp only [performed, Op.toAction, perform, hx, hy, Option.bind_eq_bind, Option.bind_some,
      if_pos (show isName key = true from hname), writeLocal, if_neg (show key ∉ onObject from hon)]
    rfl
  | delete key =>
    simp only [performed, Op.toAction, perform, hx, hy, Option.bind_eq_bind, Option.bind_some,
      if_pos (show isName key = true from hname), deleteLocal]
    rfl

theorem NoneYet.setContext (h : NoneYet s x) {k : CVarNo} (hk : k < s.cvars) {x' : Context U}
    (hx' : ∀ k', k' ≠ k → x'.data (.user k') = x.data (.user k')) : NoneYet (s.setContext 0 x') x' := by
  intro k' hk'
  have hne : k' ≠ k := Nat.ne_of_gt (Nat.lt_of_lt_of_le hk hk')
  exact ⟨(h k' hk').1, (hx' k' hne).trans (h k' hk').2⟩

/-- An access that comes to a `_CVar`; `s` is the state in which `_lock_storage` yields it. -/
theorem rep_cvar {m : Bool} {k : CVarNo} {z : Thread U} (hobject : s.object l = fun _ => none)
    (hx : s.contexts 0 = some x) (hz : s.thread 0 = some z) (hident : z.ident = y.ident) (hnone : NoneYet s x)
    (h : CVarHas s x y k (ns m)) {o : Op U} (ho : o.avoidsData = true)
    (hrest : ∀ s' x' d, s'.cvars = s.cvars → s'.locals = s.locals → CVarHas s' x' z k d →
      Holds s' x' z (Function.update ns m d) l) :
    ∃ s', o.onTarget s x y (.cvar k) = (s', (o.on (ns m)).2) ∧ Rep l s' (Function.update ns m (o.on (ns m)).1) := by
  obtain ⟨x', htarget, hhas, hothers⟩ := onTarget_cvar h hx ho
  refine ⟨_, htarget, hobject, x', z, contexts_setContext .., hz, hnone.setContext h.lt hothers, ?_⟩
  exact hrest _ x' _ rfl rfl ⟨hhas.lt, hhas.data, hident ▸ hhas.attrs⟩

theorem CVarAttr.empty {o : Option U} {d : String → Option U} {p : Option (Obj U)} (h : CVarAttr s x y o d p)
    (hp : ∀ k, p ≠ some (.cvar k)) : p = o.map .value ∧ d = fun _ => none := by
  match p, h with
  | none, ⟨ho, hd⟩ => exact ⟨by rw [ho]; rfl, hd⟩
  | some (.value v), ⟨ho, hd⟩ => exact ⟨by rw [ho]; rfl, hd⟩
  | some (.cvar k), _ => exact absurd rfl (hp k)

theorem cvarAttr_value {o : Option U} : CVarAttr s x y o (fun _ => none) (o.map .value) := by
  cases o with
  | none => exact ⟨rfl, rfl⟩
  | some v => exact ⟨rfl, rfl⟩

theorem cvarAttr_eq (hy : s.thread 0 = some y) (n : Nat) : cvarAttr s n = y.attrs n "cvar" := by
  unfold cvarAttr
  rw [hy]
  rfl

/-- An access by sync code to a thread-critical `Local`. -/
theorem rep_threadLocal {n : Nat} (hobject : s.object (.critical n) = fun _ => none) (hx : s.contexts 0 = some x)
    (hy : s.thread 0 = some y) (hnone : NoneYet s x) (h : Holds s x y ns (.critical n)) {o : Op U}
    (ho : o.key = "cvar" → ∀ k, y.attrs n "cvar" ≠ some (.cvar k)) :
    ∃ s', o.onTarget s x y (.threadLocal n) = (s', (o.on (ns false)).2) ∧
      Rep (.critical n) s' (Function.update ns false (o.on (ns false)).1) := by
  obtain ⟨hsync, hcvar⟩ := h
  have hattr : y.attrs n o.key = (ns false o.key).map .value := by
    by_cases hkey : o.key = "cvar"
    · rw [hkey]
      exact (hcvar.empty (ho hkey)).1
    · exact hsync _ hkey
  obtain ⟨y', htarget, hident, hown, hothers⟩ := onTarget_threadLocal (x := x) hy hattr
  refine ⟨_, htarget, hobject, x, y', hx, ?_, hnone, fun key hkey => ?_, ?_⟩
  · rw [thread_setThread hy, if_pos rfl]
  · rw [Function.update_self]
    by_cases hk : key = o.key
    · rw [hk]
      exact hown
    · rw [(hothers key hk).1, (hothers key hk).2]
      exact hsync key hkey
  · rw [Function.update_self, Function.update_of_ne (by decide)]
    by_cases hkey : o.key = "cvar"
    · rw [(hcvar.empty (ho hkey)).2, ← hkey, hown]
      exact cvarAttr_value
    · obtain ⟨hattrs, hsame⟩ := hothers "cvar" fun he => hkey he.symm
      rw [hattrs, hsame]
      revert hcvar
      cases y.attrs n "cvar" with
      | none => exact id
      | some p =>
        cases p with
        | cvar k => exact fun hcvar => ⟨hcvar.1, hcvar.2.lt, hcvar.2.data, by rw [hident]; exact hcvar.2.attrs⟩
        | value v => exact id
        | contextVar k => exact id

/-- **One access.** -/
theorem rep_access (h : Rep l s ns) {a : Access U} (ha : a.2.Named) (hC : undisturbed s a l = true) :
    ∃ s', performed vars l s a = some (s', (access l ns a).2) ∧ Rep l s' (access l ns a).1 := by
  obtain ⟨hobject, x, y, hx, hy, hnone, hholds⟩ := h
  rw [performed_eq hobject hx hy ha]
  obtain ⟨running, o⟩ := a
  cases l with
  | shared n =>
    obtain ⟨k, hk, hhas⟩ := hholds
    have hrest : ∀ s' x' d, s'.cvars = s.cvars → s'.locals = s.locals → CVarHas s' x' y k d →
        Holds s' x' y (Function.update ns false d) (.shared n) := by
      intro s' x' d _ hlocals hhas'
      refine ⟨k, by rw [hlocals]; exact hk, ?_⟩
      rw [Function.update_self]
      exact hhas'
    obtain ⟨s', htarget, hrep⟩ := rep_cvar hobject hx hy rfl hnone hhas hC hrest
    exact ⟨s', by simp only [lockStorage, hk, Option.map_some, htarget]; rfl, hrep⟩
  | critical n =>
    cases running with
    | false =>
      obtain ⟨s', htarget, hrep⟩ := rep_threadLocal hobject hx hy hnone hholds (o := o) fun hkey k hk => by
        simp only [undisturbed, cvarAttr_eq hy, hk, hkey, ne_eq, not_true_eq_false, decide_false, Bool.false_eq_true] at hC
      exact ⟨s', by simp only [lockStorage, Bool.false_eq_true, if_false, Option.map_some, htarget]; rfl, hrep⟩
    | true =>
      obtain ⟨hsync, hcvar⟩ := hholds
      simp only [undisturbed, cvarAttr_eq hy] at hC
      cases hattr : y.attrs n "cvar" with
      | none =>
        -- the `_CVar` is made
        rw [hattr] at hcvar hC
        obtain ⟨ho, hempty⟩ := hcvar
        have hz : (makeCVar s 0 y n).thread 0 = some (y.setAttr n "cvar" (some (.cvar s.cvars))) :=
          (thread_setThread hy _ 0).trans (if_pos rfl)
        have hnone' : NoneYet (makeCVar s 0 y n) x := fun k hk => hnone k (Nat.le_of_succ_le hk)
        have hhas : CVarHas (makeCVar s 0 y n) x y s.cvars (ns true) := by
          refine ⟨Nat.lt_succ_self _, (hnone _ (Nat.le_refl _)).1, ?_⟩
          rw [Context.storage, (hnone _ (Nat.le_refl _)).2, hempty]
        have hrest : ∀ s' x' d, s'.cvars = (makeCVar s 0 y n).cvars → s'.locals = (makeCVar s 0 y n).locals →
            CVarHas s' x' (y.setAttr n "cvar" (some (.cvar s.cvars))) s.cvars d →
            Holds s' x' (y.setAttr n "cvar" (some (.cvar s.cvars))) (Function.update ns true d) (.critical n) := by
          intro s' x' d _ _ hhas'
          refine ⟨fun key hkey => ?_, ?_⟩
          · rw [attrs_setAttr, if_neg fun hall => hkey hall.2]
            exact hsync key hkey
          · rw [attrs_setAttr, if_pos ⟨rfl, rfl⟩, Function.update_self, Function.update_of_ne (by decide)]
            exact ⟨ho, hhas'⟩
        obtain ⟨s', htarget, hrep⟩ := rep_cvar (s := makeCVar s 0 y n) (y := y) hobject hx hz rfl hnone' hhas hC hrest
        exact ⟨s', by simp only [lockStorage, if_true, hattr, Option.map_some, htarget]; rfl, hrep⟩
      | some p =>
        cases p with
        | value v =>
          rw [hattr] at hC
          cases hC
        | contextVar k =>
          rw [hattr] at hcvar
          cases hcvar
        | cvar k =>
          rw [hattr] at hcvar hC
          obtain ⟨ho, hhas⟩ := hcvar
          have hrest : ∀ s' x' d, s'.cvars = s.cvars → s'.locals = s.locals → CVarHas s' x' y k d →
              Holds s' x' y (Function.update ns true d) (.critical n) := by
            intro s' x' d _ _ hhas'
            refine ⟨hsync, ?_⟩
            rw [hattr, Function.update_self, Function.update_of_ne (by decide)]
            exact ⟨ho, hhas'⟩
          obtain ⟨s', htarget, hrep⟩ := rep_cvar hobject hx hy rfl hnone hhas hC hrest
          exact ⟨s', by simp only [lockStorage, if_true, hattr, Option.map_some, htarget]; rfl, hrep⟩

end

/-- **A `Local` is a namespace**, or one for each mode, in every sequence of accesses that do not get at the parts of the
implementation. -/
theorem namespace_of_undisturbed {vars : Sync.UserVars U} {tid : ThreadId} {l : LocalObj}
    (hl : l = .shared 0 ∨ ∃ n, l = .critical n) {as : List (Access U)} (has : ∀ a ∈ as, a.2.Named)
    (hC : (stepsOf (performed vars l)).Meets (fun s a => undisturbed s a l = true) (fresh tid) as) :
    answers (performed vars l) (fresh tid) as = some (totalAnswers (access l) (fun _ _ => none) as) := by
  have hnamed : (stepsOf (performed vars l)).Meets (fun s a => a.2.Named ∧ undisturbed s a l = true) (fresh tid) as :=
    (stepsOf (performed vars l)).meets_and ((stepsOf (performed vars l)).meets_of_forall (fun a ha _ => has a ha) _) hC
  exact answers_of_meets (fun s ns a h hC => rep_access h hC.1 hC.2) (rep_fresh tid hl) hnamed

/-- Sync and async code use the same names, and one that the implementation uses too. -/
def harmless : List (Access Nat) :=
  [(false, .set "a" 1), (true, .set "a" 2), (true, .set "cvar" 3), (false, .get "a"), (true, .delete "a"),
    (true, .get "a"), (false, .set "_data" 4), (false, .get "_data"), (true, .get "cvar")]

theorem namespace_of_harmless :
    answers (performed Sync.numbers (.critical 0)) (fresh 5) harmless =
      some (totalAnswers (access (.critical 0)) (fun _ _ => none) harmless) :=
  namespace_of_undisturbed (.inr ⟨0, rfl⟩) (by decide) (by decide)

/-- The names of the parts: `_data` is replaced, and the `_CVar` deleted by sync code. -/
def replaced : List (Access Nat) := [(false, .get "_data"), (false, .set "a" 1), (false, .set "_data" 2), (false, .get "a")]

def deleted : List (Access Nat) := [(true, .set "a" 1), (false, .delete "cvar"), (true, .get "a")]

/-- **The implementation shares the names**: `_data` is there before anybody has set it, and attributes are lost with
`_data` and `cvar`. -/
theorem not_namespace : (∀ a ∈ replaced ++ deleted, a.2.Named) ∧
    answers (performed Sync.numbers (.shared 0)) (fresh 5) replaced =
      some [.ok (some (.contextVar 0)), .ok none, .ok none, .error .attributeError] ∧
    totalAnswers (access (.shared 0)) (fun _ _ => none) replaced =
      [.error .attributeError, .ok none, .ok none, .ok (some (.value 1))] ∧
    answers (performed Sync.numbers (.critical 0)) (fresh 5) deleted = some [.ok none, .ok none, .error .attributeError] ∧
    totalAnswers (access (.critical 0)) (fun _ _ => none) deleted =
      [.ok none, .error .attributeError, .ok (some (.value 1))] :=
  ⟨by decide, rfl, rfl, rfl, rfl⟩

end Asgiref.Local.Objects
