import Asgiref.CurrentThreadExecutor.Submit
import Asgiref.Lib.Simulation

/-!
# `submit` as one atomic step

* `AtomicStep`: the executors with a `submit` that goes from its thread check to the nearest running executor
  at once, or fails at once if all of its chain are broken;
* `State.recall`: the machine of the walk, with every submitter put back in front of the executor it called;
* `simulates_atomicStep`: one turn of a walk that goes up is invisible, and every other step is an atomic one;
* `submit_linearizable`: the runs of the walk are runs of the atomic machine, and each call is decided right at
  the moment of its last block.
-/

namespace Asgiref.CurrentThreadExecutor

open Asgiref.Python Asgiref.Lib

/-! ### The atomic machine -/

/-- The executors with an atomic `submit`: the item is appended to the nearest running executor, or rejected. -/
inductive AtomicStep : State → Action → State → Prop
  | other {s s' : State} {a : Action} : (∀ i, a ≠ .walk i) → step s a = some s' → AtomicStep s a s'
  | append {s : State} {i : ItemId} {it : WorkItem} {e f : ExecutorId} {x : Executor} : s.items i = some it →
      it.place = .walking e → Nearest s e f → s.execs f = some x →
      AtomicStep s (.walk i) ((s.setExec f (x.append i)).setItem i { it with place := .queued f })
  | reject {s : State} {i : ItemId} {it : WorkItem} {e : ExecutorId} : s.items i = some it →
      it.place = .walking e → AllBroken s e → AtomicStep s (.walk i) (s.setItem i { it with place := .rejected })

/-- A turn of the walk that goes up the chain is invisible. -/
def visible (s : State) : Action → Option Action
  | .walk i =>
    match (s.placeOf i) with
    | some (.walking e) =>
      if ((s.execs e).any fun x => x.broken && x.oldExecutor.isSome) then none else some (.walk i)
    | _ => some (.walk i)
  | a => some a

/-! ### Submitters before their walk -/

/-- The item, back in the hands of a submitter in front of `e` if it is on its way. -/
def WorkItem.recall (e : ExecutorId) (it : WorkItem) : WorkItem :=
  match it.place with
  | .walking _ => { it with place := .walking e }
  | _ => it

/-- Every submitter stands in front of the executor it called, which `called` tells. -/
def State.recall (called : ItemId → ExecutorId) (s : State) : State :=
  { s with items := fun i => (s.items i).map (WorkItem.recall (called i)) }

section Recall

variable (called : ItemId → ExecutorId) (s : State)

@[simp] theorem recall_future (e : ExecutorId) (it : WorkItem) : (it.recall e).future = it.future := by
  unfold WorkItem.recall; split <;> rfl

@[simp] theorem recall_calls (e : ExecutorId) (it : WorkItem) : (it.recall e).calls = it.calls := by
  unfold WorkItem.recall; split <;> rfl

@[simp] theorem recall_submitter (e : ExecutorId) (it : WorkItem) : (it.recall e).submitter = it.submitter := by
  unfold WorkItem.recall; split <;> rfl

theorem recall_of_walking {e g : ExecutorId} {it : WorkItem} (h : it.place = .walking g) :
    it.recall e = { it with place := .walking e } := by
  unfold WorkItem.recall; rw [h]

theorem recall_of_not_walking {e : ExecutorId} {it : WorkItem} (h : ∀ g, it.place ≠ .walking g) :
    it.recall e = it := by
  unfold WorkItem.recall
  split
  · exact absurd ‹_› (h _)
  · rfl

@[simp] theorem State.execs_recall : (s.recall called).execs = s.execs := rfl

@[simp] theorem State.items_recall (i : ItemId) :
    (s.recall called).items i = (s.items i).map (WorkItem.recall (called i)) := rfl

theorem State.recall_setExec (e : ExecutorId) (x : Executor) :
    (s.setExec e x).recall called = (s.recall called).setExec e x := rfl

theorem State.recall_setItem (i : ItemId) (it : WorkItem) :
    (s.setItem i it).recall called = (s.recall called).setItem i (it.recall (called i)) := by
  unfold State.recall State.setItem
  congr 1
  funext j
  by_cases hj : j = i
  · subst hj; simp
  · simp [hj]

/-- An item that is not on its way is the same in both machines. -/
theorem recall_setItem_of_not_walking {i : ItemId} {it : WorkItem} (h : ∀ g, it.place ≠ .walking g) :
    (s.setItem i it).recall called = (s.recall called).setItem i it := by
  rw [State.recall_setItem, recall_of_not_walking h]

theorem recall_runItem (e : ExecutorId) (x : Executor) (i : ItemId) (it : WorkItem) :
    runItem (s.recall called) e x i (it.recall (called i)) = (runItem s e x i it).recall called := by
  unfold runItem
  simp only [recall_future, recall_calls, recall_submitter]
  split
  · rfl
  · rw [recall_setItem_of_not_walking _ _ (by simp), State.recall_setExec]
  · rw [recall_setItem_of_not_walking _ _ (by simp), State.recall_setExec]

theorem recall_completeItem (e : ExecutorId) (x : Executor) (i : ItemId) (it : WorkItem) (r : Result Unit) :
    completeItem (s.recall called) e x i (it.recall (called i)) r = (completeItem s e x i it r).recall called := by
  unfold completeItem
  simp only [recall_future, recall_calls, recall_submitter]
  split
  · rfl
  · rw [recall_setItem_of_not_walking _ _ (by simp), State.recall_setExec]

theorem recall_loopBlock (e : ExecutorId) (x : Executor) :
    loopBlock (s.recall called) e x = (loopBlock s e x).map (State.recall called) := by
  unfold loopBlock
  split
  · split <;> rfl
  · rw [State.items_recall, Option.map_map, Option.map_map]
    refine Option.map_congr fun it _ => ?_
    have hpopped : ∀ g, ({ it with place := .popped e } : WorkItem).place ≠ .walking g := by simp
    simp only [Function.comp, recall_setItem_of_not_walking _ _ hpopped, State.recall_setExec, recall_future,
      recall_calls, recall_submitter]

/-- What a step does with the executor or the item it looks up. -/
theorem bind_recall {α : Type} (o : Option α) {f g : α → Option State}
    (h : ∀ x, f x = (g x).map (State.recall called)) : (o >>= f) = (o >>= g).map (State.recall called) := by
  cases o with
  | none => rfl
  | some x => exact h x

/-- The steps that carry no item up the chain are the same in both machines. -/
theorem step_recall {a : Action} (hsub : ∀ i t e, a ≠ .submit i t e) (hwalk : ∀ i, a ≠ .walk i) :
    step (s.recall called) a = (step s a).map (State.recall called) := by
  cases a with
  | create e t old =>
    simp only [step, State.execs_recall]
    rw [apply_ite (Option.map _)]
    rfl
  | enter e t =>
    refine bind_recall called (s.execs e) fun x => ?_
    split
    · rfl
    · split
      · rfl
      · split <;> rfl
  | resolve e => exact bind_recall called (s.execs e) fun x => rfl
  | done e =>
    refine bind_recall called (s.execs e) fun x => ?_
    split <;> rfl
  | loop e =>
    refine bind_recall called (s.execs e) fun x => ?_
    split
    · exact recall_loopBlock called s e x
    · rfl
  | run e =>
    refine bind_recall called (s.execs e) fun x => ?_
    split
    · rw [State.items_recall, Option.map_map, Option.map_map]
      exact Option.map_congr fun it _ => recall_runItem called s e x _ it
    · rfl
  | complete e r =>
    refine bind_recall called (s.execs e) fun x => ?_
    split
    · rw [State.items_recall, Option.map_map, Option.map_map]
      exact Option.map_congr fun it _ => recall_completeItem called s e x _ it r
    · rfl
  | submit i t e => exact absurd rfl (hsub i t e)
  | walk i => exact absurd rfl (hwalk i)
  | cancel i =>
    simp only [step, State.items_recall]
    cases s.items i with
    | none => rfl
    | some it =>
      simp only [Option.map_some, Option.bind_eq_bind, Option.bind_some, State.recall_setItem, recall_future]
      cases hp : it.place <;> simp [WorkItem.recall, hp]

end Recall

/-! ### The simulation -/

/-- The chain is all that matters for where an item goes. -/
theorem Nearest.congr {s t : State} {e f : ExecutorId} (h : Nearest s e f) (heq : t.execs = s.execs) :
    Nearest t e f := by
  induction h with
  | here hx hb => exact .here (heq ▸ hx) hb
  | up hx hb ho _ ih => exact .up (heq ▸ hx) hb ho ih

theorem AllBroken.congr {s t : State} {e : ExecutorId} (h : AllBroken s e) (heq : t.execs = s.execs) :
    AllBroken t e := by
  induction h with
  | last hx hb ho => exact .last (heq ▸ hx) hb ho
  | up hx hb ho _ ih => exact .up (heq ▸ hx) hb ho ih

/-- The atomic machine is in the state of the walk with every submitter in front of the executor it called, and
the walks have passed broken executors only. -/
def Recalls (s t : State) : Prop :=
  ∃ called, t = s.recall called ∧ ∀ i it, s.items i = some it → Carried i it.submitter (called i) s

theorem recalls_init : Recalls State.init State.init :=
  ⟨fun _ => 0, rfl, fun _ _ h => by cases h⟩

/-- The executors and their queues are the same in both machines. -/
theorem Recalls.execs {s t : State} (h : Recalls s t) : t.execs = s.execs := by
  obtain ⟨called, rfl, -⟩ := h
  rfl

/-- An item appears only through the call that submits it. -/
theorem items_none_step {s s' : State} {a : Action} (hs : step s a = some s') {i : ItemId} (hi : s.items i = none)
    (ha : ∀ t e, a ≠ .submit i t e) : s'.items i = none := by
  have hset : ∀ {u : State} {j : ItemId} {it jt : WorkItem}, u.items = s.items → s.items j = some jt →
      (u.setItem j it).items i = none := by
    intro u j it jt hu hj
    rw [State.items_setItem, if_neg (by rintro rfl; rw [hi] at hj; cases hj), hu, hi]
  cases stepTo_of_step hs with
  | loopPop _ _ _ hj => exact hset rfl hj
  | run _ _ hj =>
    unfold runItem
    split
    · exact hi
    · exact hset rfl hj
    · exact hset rfl hj
  | complete _ _ hj =>
    unfold completeItem
    split
    · exact hi
    · exact hset rfl hj
  | @submit j t e =>
    rw [State.items_setItem, if_neg (by rintro rfl; exact ha t e rfl), hi]
  | walkRejected hj => exact hset rfl hj
  | walkUp hj => exact hset rfl hj
  | walkAppend hj => exact hset rfl hj
  | cancel hj => exact hset rfl hj
  | _ => exact hi

theorem carried_all_step {s s' : State} {a : Action} {called : ItemId → ExecutorId} (hs : step s a = some s')
    (hc : ∀ i it, s.items i = some it → Carried i it.submitter (called i) s) (ha : ∀ i t e, a ≠ .submit i t e) :
    ∀ i it, s'.items i = some it → Carried i it.submitter (called i) s' := by
  intro i it' hit'
  cases hi : s.items i with
  | none =>
    rw [items_none_step hs hi (ha i)] at hit'
    cases hit'
  | some it =>
    obtain ⟨jt, hjt, ht, hpassed⟩ := carried_step (hc i it hi) hs
    cases hit'.symm.trans hjt
    exact ⟨_, hit', rfl, hpassed⟩

/-- **The walk refines the atomic `submit`.** -/
theorem simulates_atomicStep : machine.Simulates AtomicStep visible Recalls := by
  rintro s a s' t ⟨called, rfl, hcar⟩ hs
  change step s a = some s' at hs
  cases a with
  | walk i =>
    have hcar' := carried_all_step hs hcar (by simp)
    cases stepTo_of_step hs with
    | @walkRejected _ e x it hit hp hx hb ho =>
      have hv : visible s (.walk i) = some (.walk i) := by simp [visible, State.placeOf, hit, hp, hx, ho]
      rw [hv]
      obtain ⟨it', hit', -, hpassed⟩ := hcar i it hit
      cases hit.symm.trans hit'
      refine ⟨_, .reject (by rw [State.items_recall, hit, Option.map_some]) (by rw [recall_of_walking hp])
        (((hpassed e hp).allBroken (.last hx hb ho)).congr rfl), called, ?_, hcar'⟩
      rw [recall_setItem_of_not_walking _ _ (by simp), recall_submitter, recall_future, recall_calls]
    | @walkUp _ e x it o hit hp hx hb ho =>
      have hv : visible s (.walk i) = none := by simp [visible, State.placeOf, hit, hp, hx, hb, ho]
      rw [hv]
      refine ⟨called, ?_, hcar'⟩
      rw [State.recall_setItem, recall_of_walking rfl]
      have hsame : (s.recall called).items i = some { it with place := .walking (called i) } := by
        rw [State.items_recall, hit, Option.map_some, recall_of_walking hp]
      unfold State.setItem
      rw [← hsame, Function.update_eq_self]
    | @walkAppend _ e x it hit hp hx hb =>
      have hv : visible s (.walk i) = some (.walk i) := by simp [visible, State.placeOf, hit, hp, hx, hb]
      rw [hv]
      obtain ⟨it', hit', -, hpassed⟩ := hcar i it hit
      cases hit.symm.trans hit'
      refine ⟨_, .append (by rw [State.items_recall, hit, Option.map_some]) (by rw [recall_of_walking hp])
        (((hpassed e hp).nearest (.here hx hb)).congr rfl) hx, called, ?_, hcar'⟩
      rw [recall_setItem_of_not_walking _ _ (by simp), State.recall_setExec, recall_submitter, recall_future,
        recall_calls]
  | submit i t e =>
    cases stepTo_of_step hs with
    | submitRefused hx ht =>
      have hnone : s.items i = none := items_of_submit hs
      exact ⟨_, .other (by simp) (by simp [step, hx, ht, hnone]), called, rfl, hcar⟩
    | submit hx hi ht =>
      refine ⟨(s.recall called).setItem i { submitter := t, place := .walking e },
        .other (by simp) (by simp [step, hx, hi, ht]), Function.update called i e, ?_, fun j jt hj => ?_⟩
      · rw [State.recall_setItem, Function.update_self, recall_of_walking rfl, State.setItem, State.setItem]
        congr 1
        funext j
        by_cases hj : j = i
        · subst hj
          rw [Function.update_self, Function.update_self]
        · simp [hj]
      · by_cases hji : j = i
        · subst hji
          rw [State.items_setItem, if_pos rfl] at hj
          cases hj
          rw [Function.update_self]
          exact (carried_of_submit hs (by rw [State.placeOf_setItem, if_pos rfl])).1
        · rw [State.items_setItem, if_neg hji] at hj
          rw [Function.update_of_ne hji]
          obtain ⟨it', hit', ht', hpassed⟩ := carried_step (hcar j jt hj) hs
          exact ⟨it', hit', ht', hpassed⟩
  | _ =>
    refine ⟨s'.recall called, .other (by simp) ?_, called, rfl, carried_all_step hs hcar (by simp)⟩
    rw [step_recall called s (by simp) (by simp), hs, Option.map_some]

/-! ### Linearizability -/

/-- A block of the walk that does not append the item changes no queue. -/
theorem execs_of_not_appendedTo {s s' : State} {i : ItemId} (hs : step s (.walk i) = some s')
    (h : ∀ f, ¬ AppendedTo i f s') : s'.execs = s.execs := by
  cases stepTo_of_step hs with
  | walkRejected => rfl
  | walkUp => rfl
  | walkAppend => exact absurd (by rw [AppendedTo, State.placeOf_setItem, if_pos rfl]) (h _)

/-- **`submit` is linearizable.**  Every run of the walk is, but for the turns that go up the chain, a run of the
atomic machine, with the same queues throughout; and the call that ends with an item in the queue of `f`, or
with all executors found to be broken, is right about this at the moment of its last block, where a failing call
leaves all queues as they were. -/
theorem submit_linearizable :
    (∀ as s, machine.run State.init as = some s →
      ∃ t, Steps AtomicStep State.init (machine.trace visible State.init as) t ∧ Recalls s t ∧ t.execs = s.execs) ∧
    (∀ i t e s₀ s s', Submits i t e s₀ s s' →
      (∀ f, AppendedTo i f s' → Nearest s e f) ∧
      (s'.placeOf i = some .rejected → AllBroken s e) ∧
      (Raised i s' → s'.execs = s.execs)) ∧
    ∀ i s s', step s (.walk i) = some s' → (∀ f, ¬ AppendedTo i f s') → s'.execs = s.execs := by
  refine ⟨fun as s hrun => ?_, fun i t e s₀ s s' h => ?_, fun i s s' hs h => execs_of_not_appendedTo hs h⟩
  · obtain ⟨t, hsteps, hrel⟩ := simulates_atomicStep.run recalls_init hrun
    exact ⟨t, hsteps, hrel, hrel.execs⟩
  · obtain ⟨x, -, -, hnone, rfl⟩ | ⟨-, ⟨f, y, it, hnear, -, -, -, rfl⟩ | ⟨hbroken, hrej, hexecs⟩⟩ := submits_cases h
    · exact ⟨fun f hf => absurd hf (Raised.not_appendedTo (.inl hnone) f),
        fun hrej => (by rw [hnone] at hrej; cases hrej),
        fun _ => rfl⟩
    · have hacc : AppendedTo i f ((s.setExec f (y.append i)).setItem i { it with place := .queued f }) := by
        rw [AppendedTo, State.placeOf_setItem, if_pos rfl]
      refine ⟨fun g hg => ?_, fun hrej => ?_, fun hr => absurd hacc (hr.not_appendedTo f)⟩
      · obtain rfl : f = g := by simpa using hacc.symm.trans hg
        exact hnear
      · cases hacc.symm.trans hrej
    · exact ⟨fun f hf => absurd hf (Raised.not_appendedTo (.inr hrej) f), fun _ => hbroken, fun _ => hexecs⟩

/-- A call that finds the executor broken and goes on to the one below. -/
theorem nearest_of_accepted_third : ∃ s₀ s s', Submits 0 3 1 s₀ s s' ∧ AppendedTo 0 0 s' ∧ Nearest s 1 0 := by
  obtain ⟨s₀, s, s', -, h, hacc, -⟩ := submits_third
  exact ⟨s₀, s, s', h, hacc, (submit_linearizable.2.1 0 3 1 s₀ s s' h).1 0 hacc⟩

end Asgiref.CurrentThreadExecutor
