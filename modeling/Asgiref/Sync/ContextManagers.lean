import Asgiref.Lib.Machine
import Mathlib.Data.List.Basic
import Mathlib.Logic.Function.Basic

/-!
# Nested context managers

`AsyncSingleThreadContext` and `ThreadSensitiveContext` keep the token of the outermost enter on the instance and
consult it on every exit.

* `enter`, `exit`, `aexit`: the methods of the two classes, with the token of `ContextVar.set` and `ContextVar.reset`;
* `perform`, `machine`: well-nested blocks in one context, among calls that make executors;
* `Reentrant`: what the docstrings promise of a step; `Ours`: that the block which is left owns the variable, or has
  no token;
* `reentrant_iff`: the runs whose steps keep the promise are those in which no other block is left.
-/

namespace Asgiref.Sync.ContextManagers

open Asgiref.Lib

/-- Which of the two classes. -/
inductive Manager where
  | asyncSingleThread
  | threadSensitive
  deriving DecidableEq

/-- An instance of the class. -/
abbrev ContextId := Nat
abbrev PoolId := Nat

/-- What `ContextVar.set` returns. -/
structure Token where
  /-- `None` where the variable was unset -/
  oldValue : Option ContextId
  used : Bool := false
  deriving DecidableEq

/-- What an exit can raise.  The text of the `RuntimeError` names the token by its address. -/
inductive Raised where
  /-- "… has already been used once" -/
  | runtimeError

structure State where
  /-- the context variable of the class -/
  var : Option ContextId := none
  /-- `self.token` -/
  token : ContextId → Option Token := fun _ => none
  /-- `context_to_thread_executor` -/
  table : ContextId → Option PoolId := fun _ => none
  /-- how many executors have been made -/
  pools : Nat := 0
  isShutdown : PoolId → Bool := fun _ => false
  /-- the executor that the helper thread of `__aexit__` joins -/
  joining : Option PoolId := none
  /-- the blocks that are open, the innermost first -/
  blocks : List ContextId := []

section

variable (s : State) (m : ContextId)

/-- `self.token = var.set(self)`, where the variable is unset. -/
def enter : State :=
  match s.var with
  | some _ => s
  | none => { s with var := some m, token := Function.update s.token m (some { oldValue := s.var }) }

/-- `var.reset(token)` -/
def reset (k : Token) : State × Option Raised :=
  if k.used then (s, some .runtimeError)
  else ({ s with var := k.oldValue, token := Function.update s.token m (some { k with used := true }) }, none)

/-- `executor = context_to_thread_executor.pop(self, None)` -/
def pop : State := { s with table := Function.update s.table m none }

/-- `executor.shutdown()`, if there is one. -/
def shutdown (executor : Option PoolId) : State :=
  match executor with
  | some p => { s with isShutdown := Function.update s.isShutdown p true }
  | none => s

/-- `AsyncSingleThreadContext.__exit__` -/
def exit : State × Option Raised :=
  match s.token m with
  | none => (s, none)
  | some k => reset (shutdown (pop s m) (s.table m)) m k

/-- `ThreadSensitiveContext.__aexit__`, up to where it awaits the helper thread. -/
def aexit : State × Option Raised :=
  match s.token m with
  | none => (s, none)
  | some k =>
    match reset (pop s m) m k with
    | (s', some e) => (s', some e)
    | (s', none) => ({ s' with joining := s.table m }, none)

/-- The exit of the class. -/
def Manager.exit : Manager → State × Option Raised
  | .asyncSingleThread => ContextManagers.exit s m
  | .threadSensitive => aexit s m

/-- A call that carries `m` looks for the executor of `m`, and makes one where there is none. -/
def call : State :=
  match s.table m with
  | some _ => s
  | none => { s with table := Function.update s.table m (some s.pools), pools := s.pools + 1 }

end

inductive Action where
  /-- A block of the instance `m` is opened. -/
  | enter (m : ContextId)
  /-- The innermost block is left. -/
  | exit
  /-- A call in this context, or in a copy of it that carries `m`. -/
  | call (m : ContextId)
  /-- The helper thread has joined the executor, and `__aexit__` returns. -/
  | join

/-- The state after the action, and the exception it raises, if it does.  While `__aexit__` waits, its context does
nothing else. -/
def perform (k : Manager) (s : State) : Action → Option (State × Option Raised)
  | .enter m => if s.joining = none then some ({ enter s m with blocks := m :: s.blocks }, none) else none
  | .exit =>
    match s.joining, s.blocks with
    | none, m :: blocks => some ({ (k.exit s m).1 with blocks := blocks }, (k.exit s m).2)
    | _, _ => none
  | .call m => some (call s m, none)
  | .join => s.joining.map fun p => ({ shutdown s (some p) with joining := none }, none)

/-- Blocks of one of the classes in one context. -/
def machine (k : Manager) : Machine State Action := ⟨fun s a => (perform k s a).map Prod.fst⟩

/-- The instance of the outermost block. -/
def State.outermost (s : State) : Option ContextId := s.blocks.getLast?

/-- **The promise.**  Nothing raises; while a block is open the variable holds the outermost instance, whose executor
stays; and when the outermost block is left, the variable is unset again, and the executor taken out and shut down. -/
structure Reentrant (k : Manager) (s : State) (a : Action) (s' : State) : Prop where
  not_raised : ∀ t e, perform k s a ≠ some (t, some e)
  var : s'.var = s'.outermost
  kept : ∀ m p, s.outermost = some m → s'.outermost = some m → s.table m = some p → s'.table m = some p
  in_use : ∀ m p, s'.outermost = some m → s'.table m = some p → s'.isShutdown p = false
  released : ∀ m p, s.outermost = some m → s'.outermost = none → s.table m = some p →
    s'.table m = none ∧ (s'.isShutdown p = true ∨ s'.joining = some p)
  joined : ∀ p, s.joining = some p → s'.joining = some p ∨ s'.isShutdown p = true

/-- The block that is left is the outermost one, or its instance has never been the outermost. -/
def Ours (s : State) : Action → Prop
  | .exit => s.blocks.tail = [] ∨ s.blocks.head?.bind s.token = none
  | _ => True

instance : ∀ s a, Decidable (Ours s a)
  | s, .exit => inferInstanceAs (Decidable (s.blocks.tail = [] ∨ s.blocks.head?.bind s.token = none))
  | _, .enter _ | _, .call _ | _, .join => isTrue trivial

/-! ### What the steps keep -/

/-- Only the outermost instance has a token that can be used, and an executor in the table can be. -/
structure Inv (s : State) : Prop where
  var : s.var = s.outermost
  owner : ∀ m k, s.token m = some k → k.used = false → s.outermost = some m ∧ k.oldValue = none
  owned : ∀ m, s.outermost = some m → ∃ k, s.token m = some k ∧ k.used = false
  pool : ∀ m p, s.table m = some p → p < s.pools ∧ s.isShutdown p = false ∧ s.joining ≠ some p
  own_pool : ∀ m n p, s.table m = some p → s.table n = some p → m = n
  joining : ∀ p, s.joining = some p → p < s.pools
  shut : ∀ p, s.isShutdown p = true → p < s.pools

theorem inv_init : Inv {} := by
  constructor <;> first | rfl | nofun

section

variable {k : Manager} {s s' : State}

theorem blocks_eq_nil_iff : s.outermost = none ↔ s.blocks = [] := List.getLast?_eq_none_iff

/-- The blocks matter by the outermost one only. -/
theorem Inv.withBlocks (h : Inv s) {blocks : List ContextId} (hb : blocks.getLast? = s.outermost) :
    Inv { s with blocks := blocks } where
  var := h.var.trans hb.symm
  owner m t ht hu := ⟨hb.trans (h.owner m t ht hu).1, (h.owner m t ht hu).2⟩
  owned m hm := h.owned m (hb.symm.trans hm)
  pool := h.pool
  own_pool := h.own_pool
  joining := h.joining
  shut := h.shut

theorem inv_enter (h : Inv s) (m : ContextId) : Inv { enter s m with blocks := m :: s.blocks } := by
  cases hvar : s.var with
  | some o =>
    have henter : enter s m = s := by rw [enter, hvar]
    rw [henter]
    refine h.withBlocks (List.getLast?_cons_of_ne_nil fun hnil => ?_)
    rw [h.var, blocks_eq_nil_iff.2 hnil] at hvar
    cases hvar
  | none =>
    have hnone : s.outermost = none := h.var.symm.trans hvar
    have henter : enter s m = { s with var := some m, token := Function.update s.token m (some { oldValue := s.var }) } := by
      rw [enter, hvar]
    have hout : (m :: s.blocks).getLast? = some m := by
      rw [blocks_eq_nil_iff.1 hnone]
      rfl
    rw [henter]
    refine ⟨hout.symm, ?_, ?_, h.pool, h.own_pool, h.joining, h.shut⟩
    · intro n t ht hu
      by_cases hn : n = m
      · subst hn
        simp only [Function.update_self, Option.some.injEq] at ht
        subst ht
        exact ⟨hout, hvar⟩
      · simp only [Function.update_of_ne hn] at ht
        exact absurd (h.owner n t ht hu).1 (by rw [hnone]; simp)
    · intro n hn
      cases hout.symm.trans hn
      exact ⟨{ oldValue := s.var }, Function.update_self .., rfl⟩

/-- What an exit leaves by which the variable is reset. -/
structure Resets (s : State) (m : ContextId) (t : Token) (s' : State) : Prop where
  var : s'.var = t.oldValue
  token : s'.token = Function.update s.token m (some { t with used := true })
  table : s'.table = Function.update s.table m none
  pools : s'.pools = s.pools
  still_up : ∀ p, s.table m ≠ some p → s'.isShutdown p = s.isShutdown p
  executor : ∀ p, s.table m = some p → s'.isShutdown p = true ∨ s'.joining = some p
  joining : s'.joining = s.joining ∨ s'.joining = s.table m

theorem resets_exit (k : Manager) {m : ContextId} {t : Token} (ht : s.token m = some t) (hu : t.used = false) :
    (k.exit s m).2 = none ∧ Resets s m t (k.exit s m).1 := by
  cases k with
  | asyncSingleThread =>
    cases hp : s.table m with
    | none =>
      simp only [Manager.exit, exit, ht, hp, shutdown, reset, pop, hu, Bool.false_eq_true, if_false, true_and]
      exact ⟨rfl, rfl, rfl, rfl, fun _ _ => rfl, fun p hp' => (nomatch hp.symm.trans hp'), .inl rfl⟩
    | some q =>
      simp only [Manager.exit, exit, ht, hp, shutdown, reset, pop, hu, Bool.false_eq_true, if_false, true_and]
      refine ⟨rfl, rfl, rfl, rfl, fun p hne => ?_, fun p hp' => ?_, .inl rfl⟩
      · exact Function.update_of_ne (fun hpq => hne (by rw [hp, hpq])) _ _
      · cases hp.symm.trans hp'
        exact .inl (Function.update_self ..)
  | threadSensitive =>
    simp only [Manager.exit, aexit, ht, reset, pop, hu, Bool.false_eq_true, if_false, true_and]
    exact ⟨rfl, rfl, rfl, rfl, fun _ _ => rfl, fun p hp => .inr hp, .inr rfl⟩

theorem exit_of_none (k : Manager) {m : ContextId} (ht : s.token m = none) : k.exit s m = (s, none) := by
  cases k with
  | asyncSingleThread => simp only [Manager.exit, exit, ht]
  | threadSensitive => simp only [Manager.exit, aexit, ht]

/-- A token is good for one `reset`. -/
theorem exit_of_used (k : Manager) {m : ContextId} {t : Token} (ht : s.token m = some t) (hu : t.used = true) :
    (k.exit s m).2 = some .runtimeError := by
  cases k with
  | asyncSingleThread => simp only [Manager.exit, exit, ht, reset, hu, if_true]
  | threadSensitive => simp only [Manager.exit, aexit, ht, reset, hu, if_true]

theorem inv_reset (h : Inv s) {m : ContextId} {t : Token} (ht : s.token m = some t) (hu : t.used = false)
    (hr : Resets s m t s') : Inv { s' with blocks := [] } := by
  obtain ⟨hout, hold⟩ := h.owner m t ht hu
  have htable : ∀ n p, s'.table n = some p → n ≠ m ∧ s.table n = some p := by
    intro n p hp
    rw [hr.table] at hp
    by_cases hn : n = m
    · rw [hn, Function.update_self] at hp
      cases hp
    · rw [Function.update_of_ne hn] at hp
      exact ⟨hn, hp⟩
  refine ⟨hr.var.trans hold, fun n u hn hnu => ?_, nofun, fun n p hp => ?_, fun n n' p hp hp' => ?_, fun p hp => ?_,
    fun p hp => ?_⟩
  · have hn' : s'.token n = some u := hn
    rw [hr.token] at hn'
    by_cases hnm : n = m
    · rw [hnm, Function.update_self] at hn'
      cases hn'
      cases hnu
    · rw [Function.update_of_ne hnm] at hn'
      exact absurd (Option.some.inj ((h.owner n u hn' hnu).1.symm.trans hout)) hnm
  · obtain ⟨hne, hold⟩ := htable n p hp
    obtain ⟨hlt, hup, hjoin⟩ := h.pool n p hold
    have hother : s.table m ≠ some p := fun hm => hne (h.own_pool n m p hold hm)
    refine ⟨hr.pools ▸ hlt, (hr.still_up p hother).trans hup, ?_⟩
    obtain hj | hj := hr.joining
    · exact fun hp' => hjoin (hj.symm.trans hp')
    · exact fun hp' => hother (hj.symm.trans hp')
  · exact h.own_pool n n' p (htable n p hp).2 (htable n' p hp').2
  · show p < s'.pools
    rw [hr.pools]
    obtain hj | hj := hr.joining
    · exact h.joining p (hj.symm.trans hp)
    · exact (h.pool m p (hj.symm.trans hp)).1
  · show p < s'.pools
    rw [hr.pools]
    by_cases hm : s.table m = some p
    · exact (h.pool m p hm).1
    · exact h.shut p ((hr.still_up p hm).symm.trans hp)

/-- A new executor is that of one instance only. -/
theorem table_call {m n : ContextId} {p : PoolId} (hp : (call s m).table n = some p) :
    s.table n = some p ∨ n = m ∧ p = s.pools ∧ (call s m).pools = s.pools + 1 := by
  unfold call at hp ⊢
  split at hp
  · exact .inl hp
  · by_cases hn : n = m
    · subst hn
      simp only [Function.update_self, Option.some.injEq] at hp
      exact .inr ⟨rfl, hp.symm, rfl⟩
    · simp only [Function.update_of_ne hn] at hp
      exact .inl hp

theorem call_same (s : State) (m : ContextId) : (call s m).var = s.var ∧ (call s m).token = s.token ∧
    (call s m).blocks = s.blocks ∧ (call s m).isShutdown = s.isShutdown ∧ (call s m).joining = s.joining ∧
    s.pools ≤ (call s m).pools := by
  unfold call
  split
  · exact ⟨rfl, rfl, rfl, rfl, rfl, Nat.le_refl _⟩
  · exact ⟨rfl, rfl, rfl, rfl, rfl, Nat.le_succ _⟩

theorem inv_call (h : Inv s) (m : ContextId) : Inv (call s m) := by
  obtain ⟨hvar, htoken, hblocks, hshut, hjoin, hle⟩ := call_same s m
  have hout : (call s m).outermost = s.outermost := by rw [State.outermost, hblocks, State.outermost]
  refine ⟨?_, ?_, ?_, fun n p hp => ?_, fun n n' p hp hp' => ?_, fun p hp => ?_, fun p hp => ?_⟩
  · rw [hvar, hout, h.var]
  · rw [htoken, hout]
    exact h.owner
  · rw [htoken, hout]
    exact h.owned
  · rw [hshut, hjoin]
    obtain hold | ⟨-, rfl, hpools⟩ := table_call hp
    · obtain ⟨hlt, hup⟩ := h.pool n p hold
      exact ⟨Nat.lt_of_lt_of_le hlt hle, hup⟩
    · refine ⟨hpools ▸ Nat.lt_succ_self _, ?_, fun hj => absurd (h.joining _ hj) (Nat.lt_irrefl _)⟩
      exact Bool.eq_false_iff.2 fun hs => absurd (h.shut _ hs) (Nat.lt_irrefl _)
  · obtain hold | ⟨rfl, rfl, -⟩ := table_call hp
    · obtain hold' | ⟨-, rfl, -⟩ := table_call hp'
      · exact h.own_pool n n' p hold hold'
      · exact absurd (h.pool n _ hold).1 (Nat.lt_irrefl _)
    · obtain hold' | ⟨rfl, -, -⟩ := table_call hp'
      · exact absurd (h.pool n' _ hold').1 (Nat.lt_irrefl _)
      · rfl
  · exact Nat.lt_of_lt_of_le (h.joining p (hjoin ▸ hp)) hle
  · exact Nat.lt_of_lt_of_le (h.shut p (hshut ▸ hp)) hle

theorem inv_join (h : Inv s) {p : PoolId} (hp : s.joining = some p) : Inv { shutdown s (some p) with joining := none } := by
  refine ⟨h.var, h.owner, h.owned, fun n q hq => ?_, h.own_pool, nofun, fun q hq => ?_⟩
  · obtain ⟨hlt, hup, hne⟩ := h.pool n q hq
    refine ⟨hlt, ?_, nofun⟩
    have hqp : q ≠ p := fun hqp => hne (hqp ▸ hp)
    exact (Function.update_of_ne hqp _ _).trans hup
  · by_cases hqp : q = p
    · exact hqp ▸ h.joining p hp
    · exact h.shut q ((Function.update_of_ne hqp _ _).symm.trans hq)

/-! ### Steps -/

/-- What the actions do, one constructor for each. -/
inductive StepTo (k : Manager) (s : State) : Action → State → Option Raised → Prop where
  | enter {m} : s.joining = none → StepTo k s (.enter m) { enter s m with blocks := m :: s.blocks } none
  | exit {m blocks} : s.joining = none → s.blocks = m :: blocks →
      StepTo k s .exit { (k.exit s m).1 with blocks := blocks } (k.exit s m).2
  | call {m} : StepTo k s (.call m) (call s m) none
  | join {p} : s.joining = some p → StepTo k s .join { shutdown s (some p) with joining := none } none

theorem stepTo_of_perform {a : Action} {r : Option Raised} (h : perform k s a = some (s', r)) : StepTo k s a s' r := by
  cases a with
  | enter m =>
    simp only [perform, Option.ite_none_right_eq_some, Option.some.injEq, Prod.mk.injEq] at h
    obtain ⟨hj, rfl, rfl⟩ := h
    exact .enter hj
  | exit =>
    simp only [perform] at h
    split at h
    · next hj hb =>
      cases h
      exact .exit hj hb
    · cases h
  | call m =>
    cases h
    exact .call
  | join =>
    obtain ⟨p, hp, he⟩ := Option.map_eq_some_iff.1 h
    cases he
    exact .join hp

/-- An action that leaves the executors in use alone keeps the promise. -/
theorem reentrant_of_inv {a : Action} (h' : Inv s') (hp : perform k s a = some (s', none))
    (htable : ∀ m p, s.table m = some p → s'.table m = some p) (hopen : s.outermost ≠ none → s'.outermost ≠ none)
    (hjoined : ∀ p, s.joining = some p → s'.joining = some p ∨ s'.isShutdown p = true) : Reentrant k s a s' where
  not_raised t e ht := by
    rw [hp] at ht
    cases ht
  var := h'.var
  kept m p _ _ hm := htable m p hm
  in_use m p _ hm := (h'.pool m p hm).2.1
  released m p hm hnone _ := absurd hnone (hopen (by rw [hm]; simp))
  joined := hjoined

theorem good_exit (h : Inv s) {m : ContextId} {blocks : List ContextId} (hj : s.joining = none)
    (hb : s.blocks = m :: blocks) (hours : blocks = [] ∨ s.token m = none)
    (hp : perform k s .exit = some ({ (k.exit s m).1 with blocks := blocks }, (k.exit s m).2)) :
    Reentrant k s .exit { (k.exit s m).1 with blocks := blocks } ∧ Inv { (k.exit s m).1 with blocks := blocks } := by
  have hlast : s.outermost = (m :: blocks).getLast? := by rw [State.outermost, hb]
  by_cases hnil : blocks = []
  · -- the outermost block, whose instance owns the variable
    subst hnil
    obtain ⟨t, ht, hu⟩ := h.owned m hlast
    obtain ⟨hok, hr⟩ := resets_exit k ht hu
    have h' := inv_reset h ht hu hr
    refine ⟨⟨fun t' e he => ?_, h'.var, nofun, nofun, fun n p hn _ hnp => ?_, fun p hp' => ?_⟩, h'⟩
    · rw [hp, hok] at he
      cases he
    · cases hlast.symm.trans hn
      refine ⟨?_, hr.executor p hnp⟩
      show (k.exit s m).1.table m = none
      rw [hr.table, Function.update_self]
    · rw [hj] at hp'
      cases hp'
  · have hnone := hours.resolve_left hnil
    have hout : blocks.getLast? = s.outermost := by rw [hlast, List.getLast?_cons_of_ne_nil hnil]
    have h' := h.withBlocks hout
    rw [exit_of_none k hnone] at hp ⊢
    refine ⟨reentrant_of_inv h' hp (fun _ _ => id) (fun hne => ?_) fun _ => .inl, h'⟩
    rwa [show State.outermost { s with blocks := blocks } = s.outermost from hout]

/-- **A step that keeps the condition keeps the promise.** -/
theorem good_step {a : Action} (h : Inv s) (hours : Ours s a) (hs : (machine k).step s a = some s') :
    Reentrant k s a s' ∧ Inv s' := by
  obtain ⟨⟨t, r⟩, hp, rfl⟩ := Option.map_eq_some_iff.1 hs
  cases stepTo_of_perform hp with
  | @enter m hj =>
    have h' := inv_enter h m
    have htable : (enter s m).table = s.table := by
      unfold enter
      split <;> rfl
    refine ⟨reentrant_of_inv h' hp (fun n p hn => ?_) (fun _ => ?_) fun p hjp => ?_, h'⟩
    · show (enter s m).table n = some p
      rw [htable, hn]
    · exact fun hnone => List.cons_ne_nil _ _ (blocks_eq_nil_iff.1 hnone)
    · rw [hj] at hjp
      cases hjp
  | @exit m blocks hj hb => exact good_exit h hj hb (by rwa [Ours, hb] at hours) hp
  | @call m =>
    have h' := inv_call h m
    obtain ⟨-, -, hblocks, hshut, hjoin, -⟩ := call_same s m
    refine ⟨reentrant_of_inv h' hp (fun n p hn => ?_) (fun hne => ?_) fun p hjp => .inl (hjoin ▸ hjp), h'⟩
    · unfold call
      split
      · exact hn
      · next hm =>
        have hne : n ≠ m := by
          rintro rfl
          rw [hm] at hn
          cases hn
        exact (Function.update_of_ne hne _ _).trans hn
    · rwa [State.outermost, hblocks]
  | @join p hj =>
    refine ⟨reentrant_of_inv (inv_join h hj) hp (fun _ _ => id) id fun q hq => .inr ?_, inv_join h hj⟩
    cases hj.symm.trans hq
    exact Function.update_self ..

/-- **A step that breaks the condition breaks the promise.** -/
theorem bad_step {a : Action} (h : Inv s) (hours : ¬ Ours s a) (hs : (machine k).step s a = some s') :
    ¬ Reentrant k s a s' := by
  obtain ⟨⟨t, r⟩, hp, rfl⟩ := Option.map_eq_some_iff.1 hs
  cases stepTo_of_perform hp with
  | enter => exact absurd trivial hours
  | call => exact absurd trivial hours
  | join => exact absurd trivial hours
  | @exit m blocks hj hb =>
    intro hr
    rw [Ours, hb] at hours
    obtain ⟨hne, hsome⟩ := not_or.1 hours
    obtain ⟨t, ht⟩ := Option.ne_none_iff_exists'.1 hsome
    cases hu : t.used with
    | true =>
      rw [exit_of_used k ht hu] at hp
      exact hr.not_raised _ _ hp
    | false =>
      have hvar : _ = blocks.getLast? := hr.var
      rw [show State.var { (k.exit s m).1 with blocks := blocks } = (k.exit s m).1.var from rfl,
        (resets_exit k ht hu).2.var, (h.owner m t ht hu).2] at hvar
      exact hne (List.getLast?_eq_none_iff.1 hvar.symm)

end

/-- **The promise is kept in exactly the runs in which no inner block is left whose instance has been the outermost.** -/
theorem reentrant_iff {k : Manager} {s : State} {as : List Action} (hrun : (machine k).run {} as = some s) :
    (machine k).Along (Reentrant k) {} as ↔ (machine k).Meets Ours {} as :=
  (machine k).along_iff_meets (K := Inv) (C := Ours) (P := Reentrant k) (fun _ _ _ => good_step) (fun _ _ _ => bad_step)
    inv_init hrun

/-- An instance around another one, which is used on its own afterwards. -/
def nested : List Action := [.enter 0, .call 0, .enter 1, .exit, .call 0, .exit, .join, .enter 1, .call 1, .exit, .join]

theorem reentrant_nested : ∃ s, (machine .threadSensitive).run {} nested = some s ∧
    (machine .threadSensitive).Along (Reentrant .threadSensitive) {} nested :=
  ⟨_, rfl, (@reentrant_iff .threadSensitive _ nested rfl).2 (by decide)⟩

/-- **An instance that is entered again while it is open** closes the outer block with the inner one, and leaving the
outer block raises; so does leaving an instance in another one, after it has been used on its own. -/
theorem not_reentrant :
    (∃ s, (machine .asyncSingleThread).run {} [.enter 0, .call 0, .enter 0, .exit] = some s ∧
      s.outermost = some 0 ∧ s.var = none ∧ s.table 0 = none ∧ s.isShutdown 0 = true ∧
      ∃ t, perform .asyncSingleThread s .exit = some (t, some .runtimeError)) ∧
    (∃ s, (machine .threadSensitive).run {} [.enter 0, .call 0, .enter 0, .exit, .join] = some s ∧
      s.outermost = some 0 ∧ s.var = none ∧ s.table 0 = none ∧ s.isShutdown 0 = true ∧
      ∃ t, perform .threadSensitive s .exit = some (t, some .runtimeError)) ∧
    ∃ s, (machine .threadSensitive).run {} [.enter 1, .exit, .enter 0, .enter 1] = some s ∧
      ∃ t, perform .threadSensitive s .exit = some (t, some .runtimeError) :=
  ⟨⟨_, rfl, rfl, rfl, rfl, rfl, _, rfl⟩, ⟨_, rfl, rfl, rfl, rfl, rfl, _, rfl⟩, _, rfl, _, rfl⟩

end Asgiref.Sync.ContextManagers
