import Asgiref.CurrentThreadExecutor.Model

/-!
# Where `submit` puts a work item

* `Nearest`, `AllBroken`: the nearest running executor of a chain, and a chain without one;
* `Submits`: a call of `submit`, from its first step to the block that decides it, among the steps of all the
  other threads;
* `submits_cases`: the decision is right at the moment of the last block;
* `ownThread_iff`: when the item of a thread does not end in a queue of that thread.

A broken executor stays broken, so the executors the walk has left behind are broken still when it ends.
-/

namespace Asgiref.CurrentThreadExecutor

open Asgiref.Python Asgiref.Lib

/-! ### Chains -/

/-- `f` is the nearest executor of the chain from `e` that is not broken. -/
inductive Nearest (s : State) : ExecutorId → ExecutorId → Prop
  | here {e x} : s.execs e = some x → x.broken = false → Nearest s e e
  | up {e x o f} : s.execs e = some x → x.broken = true → x.oldExecutor = some o → Nearest s o f → Nearest s e f

/-- Every executor of the chain from `e` is broken. -/
inductive AllBroken (s : State) : ExecutorId → Prop
  | last {e x} : s.execs e = some x → x.broken = true → x.oldExecutor = none → AllBroken s e
  | up {e x o} : s.execs e = some x → x.broken = true → x.oldExecutor = some o → AllBroken s o → AllBroken s e

/-- The chain leads from `e` to `g` through broken executors. -/
inductive Passed (s : State) (e : ExecutorId) : ExecutorId → Prop
  | start : Passed s e e
  | up {g x o} : Passed s e g → s.execs g = some x → x.broken = true → x.oldExecutor = some o → Passed s e o

theorem Nearest.unique {s : State} {e f g : ExecutorId} (hf : Nearest s e f) (hg : Nearest s e g) : f = g := by
  induction hf with
  | here hx hb =>
    cases hg with
    | here => rfl
    | up hx' hb' =>
      cases hx.symm.trans hx'
      rw [hb] at hb'
      cases hb'
  | up hx hb ho _ ih =>
    cases hg with
    | here hx' hb' =>
      cases hx.symm.trans hx'
      rw [hb] at hb'
      cases hb'
    | up hx' _ ho' h =>
      cases hx.symm.trans hx'
      cases ho.symm.trans ho'
      exact ih h

theorem Nearest.not_allBroken {s : State} {e f : ExecutorId} (h : Nearest s e f) : ¬ AllBroken s e := by
  induction h with
  | here hx hb =>
    rintro (⟨hx', hb', -⟩ | ⟨hx', hb', -, -⟩) <;>
    · cases hx.symm.trans hx'
      rw [hb] at hb'
      cases hb'
  | up hx _ ho _ ih =>
    rintro (⟨hx', -, ho'⟩ | ⟨hx', -, ho', h⟩) <;> cases hx.symm.trans hx' <;> cases ho.symm.trans ho'
    exact ih h

theorem Passed.nearest {s : State} {e g f : ExecutorId} (h : Passed s e g) (hf : Nearest s g f) : Nearest s e f := by
  induction h with
  | start => exact hf
  | up _ hx hb ho ih => exact ih (.up hx hb ho hf)

theorem Passed.allBroken {s : State} {e g : ExecutorId} (h : Passed s e g) (hg : AllBroken s g) : AllBroken s e := by
  induction h with
  | start => exact hg
  | up _ hx hb ho ih => exact ih (.up hx hb ho hg)

/-! ### What no step undoes -/

/-- What remains of an executor: its thread, its place in the chain and that it is broken. -/
structure Executor.Grows (x y : Executor) : Prop where
  workThread : y.workThread = x.workThread
  oldExecutor : y.oldExecutor = x.oldExecutor
  broken : x.broken = true → y.broken = true

theorem Executor.Grows.refl (x : Executor) : x.Grows x := ⟨rfl, rfl, id⟩

theorem grows_notify {x y : Executor} (h : x.Grows y) : x.Grows y.notify := by
  rw [notify_eq]
  exact ⟨h.workThread, h.oldExecutor, h.broken⟩

/-- A step on one executor. -/
theorem grows_setExec {s : State} {e f : ExecutorId} {x y z : Executor} (hx : s.execs e = some x)
    (h : x.Grows y) (hz : s.execs f = some z) : ∃ w, (s.setExec e y).execs f = some w ∧ z.Grows w := by
  rw [State.execs_setExec]
  by_cases hf : f = e
  · subst hf
    cases hx.symm.trans hz
    exact ⟨y, if_pos rfl, h⟩
  · exact ⟨z, by rw [if_neg hf, hz], .refl z⟩

theorem grows_step {s s' : State} {a : Action} (hs : step s a = some s') {f : ExecutorId} {z : Executor}
    (hz : s.execs f = some z) : ∃ w, s'.execs f = some w ∧ z.Grows w := by
  have same : ∃ w, s.execs f = some w ∧ z.Grows w := ⟨z, hz, .refl z⟩
  cases stepTo_of_step hs with
  | @create e t old hnone =>
    refine ⟨z, ?_, .refl z⟩
    rw [State.execs_setExec, if_neg (by rintro rfl; rw [hnone] at hz; cases hz), hz]
  | enterRefused => exact same
  | enterDone hx => exact grows_setExec hx ⟨rfl, rfl, fun _ => rfl⟩ hz
  | enter hx => exact grows_setExec hx ⟨rfl, rfl, id⟩ hz
  | resolve hx => exact grows_setExec hx ⟨rfl, rfl, id⟩ hz
  | @done e x hx =>
    have hdone : x.Grows x.done := grows_notify ⟨rfl, rfl, fun _ => rfl⟩
    exact grows_setExec hx ⟨hdone.workThread, hdone.oldExecutor, hdone.broken⟩ hz
  | loopReturn hx => exact grows_setExec hx ⟨rfl, rfl, id⟩ hz
  | loopWait hx => exact grows_setExec hx ⟨rfl, rfl, id⟩ hz
  | loopPop hx => exact grows_setExec hx ⟨rfl, rfl, id⟩ hz
  | run hx =>
    unfold runItem
    split <;> exact grows_setExec hx ⟨rfl, rfl, id⟩ hz
  | complete hx =>
    unfold completeItem
    split <;> exact grows_setExec hx ⟨rfl, rfl, id⟩ hz
  | submitRefused => exact same
  | submit => exact same
  | walkRejected => exact same
  | walkUp => exact same
  | @walkAppend i e x it _ _ hx => exact grows_setExec hx (grows_notify ⟨rfl, rfl, id⟩) hz
  | cancel => exact same

/-- The walk stays on broken executors. -/
theorem Passed.step {s s' : State} {a : Action} {e g : ExecutorId} (h : Passed s e g) (hs : step s a = some s') :
    Passed s' e g := by
  induction h with
  | start => exact .start
  | up _ hx hb ho ih =>
    obtain ⟨y, hy, hg⟩ := grows_step hs hx
    exact .up ih hy (hg.broken hb) (hg.oldExecutor.trans ho)

/-! ### The item of a call -/

/-- What a step can make of an item: it leaves it where it is, takes it out of the hands of its submitter, or goes up
the chain with it. -/
def ItemTo (s : State) (it it' : WorkItem) : Prop :=
  it'.submitter = it.submitter ∧
    (it'.place = it.place ∨ (∀ g, it'.place ≠ .walking g) ∨
      ∃ g x o, it.place = .walking g ∧ s.execs g = some x ∧ x.broken = true ∧ x.oldExecutor = some o ∧
        it'.place = .walking o)

theorem ItemTo.refl (s : State) (it : WorkItem) : ItemTo s it it := ⟨rfl, .inl rfl⟩

/-- A step on one item. -/
theorem itemTo_setItem {s u : State} {i j : ItemId} {it jt jt' : WorkItem} (hu : u.items = s.items)
    (hit : s.items i = some it) (hj : s.items j = some jt) (h : ItemTo s jt jt') :
    ∃ it', (u.setItem j jt').items i = some it' ∧ ItemTo s it it' := by
  rw [State.items_setItem, hu]
  by_cases hij : i = j
  · subst hij
    cases hit.symm.trans hj
    exact ⟨jt', if_pos rfl, h⟩
  · exact ⟨it, by rw [if_neg hij, hit], .refl s it⟩

theorem item_step {s s' : State} {a : Action} (hs : step s a = some s') {i : ItemId} {it : WorkItem}
    (hit : s.items i = some it) : ∃ it', s'.items i = some it' ∧ ItemTo s it it' := by
  have same : ∃ it', s.items i = some it' ∧ ItemTo s it it' := ⟨it, hit, .refl s it⟩
  cases stepTo_of_step hs with
  | create => exact same
  | enterRefused => exact same
  | enterDone => exact same
  | enter => exact same
  | resolve => exact same
  | done => exact same
  | loopReturn => exact same
  | loopWait => exact same
  | loopPop _ _ _ hj => exact itemTo_setItem rfl hit hj ⟨rfl, .inr (.inl (by simp))⟩
  | run _ _ hj =>
    unfold runItem
    split
    · exact same
    all_goals exact itemTo_setItem rfl hit hj ⟨rfl, .inr (.inl (by simp))⟩
  | complete _ _ hj =>
    unfold completeItem
    split
    · exact same
    · exact itemTo_setItem rfl hit hj ⟨rfl, .inr (.inl (by simp))⟩
  | submitRefused => exact same
  | @submit j t e x hx hj =>
    refine ⟨it, ?_, .refl s it⟩
    rw [State.items_setItem, if_neg (by rintro rfl; rw [hj] at hit; cases hit), hit]
  | walkRejected hj => exact itemTo_setItem rfl hit hj ⟨rfl, .inr (.inl (by simp))⟩
  | walkUp hj hp hx hb ho => exact itemTo_setItem rfl hit hj ⟨rfl, .inr (.inr ⟨_, _, _, hp, hx, hb, ho, rfl⟩)⟩
  | walkAppend hj => exact itemTo_setItem rfl hit hj ⟨rfl, .inr (.inl (by simp))⟩
  | cancel hj => exact itemTo_setItem rfl hit hj ⟨rfl, .inl rfl⟩

/-- The item `i`, which thread `t` submitted to the executor `e`, has passed broken executors only. -/
def Carried (i : ItemId) (t : ThreadId) (e : ExecutorId) (s : State) : Prop :=
  ∃ it, s.items i = some it ∧ it.submitter = t ∧ ∀ g, it.place = .walking g → Passed s e g

theorem carried_step {s s' : State} {a : Action} {i : ItemId} {t : ThreadId} {e : ExecutorId}
    (h : Carried i t e s) (hs : step s a = some s') : Carried i t e s' := by
  obtain ⟨it, hit, ht, hpassed⟩ := h
  obtain ⟨it', hit', ht', hplace⟩ := item_step hs hit
  refine ⟨it', hit', ht'.trans ht, fun g hg => ?_⟩
  obtain hsame | hnot | ⟨g₀, x, o, hg₀, hx, hb, ho, hup⟩ := hplace
  · exact (hpassed g (hsame ▸ hg)).step hs
  · exact absurd hg (hnot g)
  · cases hup.symm.trans hg
    exact ((hpassed g₀ hg₀).up hx hb ho).step hs

/-! ### A call of `submit` -/

/-- The call of `submit` on the executor `e` by thread `t`, with the item `i`: it begins in the first state, and
its last block turns the second into the third. -/
inductive Submits (i : ItemId) (t : ThreadId) (e : ExecutorId) : State → State → State → Prop
  /-- the thread check raises -/
  | refused {s x} : s.items i = none → s.execs e = some x → t = x.workThread → Submits i t e s s s
  /-- the walk, among any steps of other threads, to the block that appends the item or finds no executor left -/
  | walked {s₀ s₁ s s' as} : step s₀ (.submit i t e) = some s₁ → s₁.placeOf i = some (.walking e) →
      machine.run s₁ as = some s → step s (.walk i) = some s' → (∀ g, s'.placeOf i ≠ some (.walking g)) →
      Submits i t e s₀ s s'

/-- The call returns: the item is in the queue of `f`. -/
def AppendedTo (i : ItemId) (f : ExecutorId) (s' : State) : Prop := s'.placeOf i = some (.queued f)

/-- The call ends in a `RuntimeError`. -/
def Raised (i : ItemId) (s' : State) : Prop := s'.placeOf i = none ∨ s'.placeOf i = some .rejected

theorem Raised.not_appendedTo {i : ItemId} {s' : State} (h : Raised i s') (f : ExecutorId) : ¬ AppendedTo i f s' := by
  unfold AppendedTo
  obtain h | h := h <;> rw [h] <;> nofun

/-- A call that passes the thread check holds its item in front of the executor called. -/
theorem carried_of_submit {i : ItemId} {t : ThreadId} {e : ExecutorId} {s₀ s₁ : State}
    (hs : step s₀ (.submit i t e) = some s₁) (hplace : s₁.placeOf i = some (.walking e)) :
    Carried i t e s₁ ∧ ∀ x, s₀.execs e = some x → x.workThread ≠ t := by
  have hnone : s₀.items i = none := by
    simp only [step, Option.bind_eq_bind, Option.bind_eq_some_iff] at hs
    obtain ⟨x, -, hs⟩ := hs
    by_contra hsome
    rw [if_pos (Option.isSome_iff_ne_none.2 hsome)] at hs
    cases hs
  cases stepTo_of_step hs with
  | submitRefused => simp [State.placeOf, hnone] at hplace
  | submit hx _ ht =>
    refine ⟨⟨_, by rw [State.items_setItem, if_pos rfl], rfl, fun g hg => ?_⟩, fun x hx' => ?_⟩
    · cases hg
      exact .start
    · cases hx.symm.trans hx'
      exact Ne.symm ht

/-- **The moment of the last block.**  A call that does not fail at the thread check appends to the executor
that is the nearest running one at this moment, or finds all executors broken at this moment. -/
theorem submits_cases {i : ItemId} {t : ThreadId} {e : ExecutorId} {s₀ s s' : State} (h : Submits i t e s₀ s s') :
    (∃ x, s₀.execs e = some x ∧ x.workThread = t ∧ s'.placeOf i = none ∧ s' = s) ∨
    ((∀ x, s₀.execs e = some x → x.workThread ≠ t) ∧
      ((∃ f y it, Nearest s e f ∧ s.execs f = some y ∧ s.items i = some it ∧ it.submitter = t ∧
        s' = (s.setExec f (y.append i)).setItem i { it with place := .queued f }) ∨
      (AllBroken s e ∧ s'.placeOf i = some .rejected ∧ s'.execs = s.execs))) := by
  cases h with
  | refused hi hx ht => exact .inl ⟨_, hx, ht.symm, by simp [State.placeOf, hi], rfl⟩
  | walked hsub hplace hrun hwalk hend =>
    right
    obtain ⟨hcar, hother⟩ := carried_of_submit hsub hplace
    obtain ⟨it, hit, ht, hpassed⟩ : Carried i t e s := machine.run_invariant (fun _ _ _ => carried_step) hcar hrun
    refine ⟨hother, ?_⟩
    cases stepTo_of_step hwalk with
    | walkRejected hit' hp hx hb ho =>
      cases hit.symm.trans hit'
      exact .inr ⟨(hpassed _ hp).allBroken (.last hx hb ho), by rw [State.placeOf_setItem, if_pos rfl], rfl⟩
    | walkUp => exact absurd (by rw [State.placeOf_setItem, if_pos rfl]) (hend _)
    | walkAppend hit' hp hx hb =>
      cases hit.symm.trans hit'
      exact .inl ⟨_, _, it, (hpassed _ hp).nearest (.here hx hb), hx, hit, ht, rfl⟩

/-! ### The submitter's own thread -/

/-- **No work for the own thread.**  An accepted item is not in a queue of the submitting thread, and a call
whose nearest running executor belongs to this thread raises and changes no queue. -/
structure OwnThreadSafe (i : ItemId) (t : ThreadId) (e : ExecutorId) (s s' : State) : Prop where
  accepted : ∀ f y, AppendedTo i f s' → s.execs f = some y → y.workThread ≠ t
  raises : ∀ f y, Nearest s e f → s.execs f = some y → y.workThread = t → Raised i s' ∧ s'.execs = s.execs

/-- **The thread check, exactly.**  It protects the submitting thread if the executor called is its own, and
else only where the nearest running executor at the end of the walk is not. -/
theorem ownThread_iff {i : ItemId} {t : ThreadId} {e : ExecutorId} {s₀ s s' : State} (h : Submits i t e s₀ s s') :
    OwnThreadSafe i t e s s' ↔ (∃ x, s₀.execs e = some x ∧ x.workThread = t) ∨
      ∀ f y, Nearest s e f → s.execs f = some y → y.workThread ≠ t := by
  obtain ⟨x, hx, hxt, hnone, rfl⟩ | ⟨hother, hcase⟩ := submits_cases h
  · have hraised : Raised i s' := .inl hnone
    exact iff_of_true ⟨fun f _ hf => absurd hf (hraised.not_appendedTo f), fun _ _ _ _ _ => ⟨hraised, rfl⟩⟩
      (.inl ⟨x, hx, hxt⟩)
  · have hfirst : ¬ ∃ x, s₀.execs e = some x ∧ x.workThread = t := fun ⟨x, hx, ht⟩ => hother x hx ht
    obtain ⟨f, y, it, hnear, hy, -, -, rfl⟩ | ⟨hbroken, hrej, hexecs⟩ := hcase
    · have hacc : AppendedTo i f ((s.setExec f (y.append i)).setItem i { it with place := .queued f }) := by
        rw [AppendedTo, State.placeOf_setItem, if_pos rfl]
      constructor
      · intro hsafe
        right
        intro g z hg hz ht
        exact (hsafe.raises g z hg hz ht).1.not_appendedTo f hacc
      · intro hcond
        have hf : y.workThread ≠ t := hcond.resolve_left hfirst f y hnear hy
        refine ⟨fun g z hg hz => ?_, fun g z hg hz ht => ?_⟩
        · obtain rfl : f = g := by
            have := hacc.symm.trans hg
            simpa using this
          cases hy.symm.trans hz
          exact hf
        · cases hnear.unique hg
          cases hy.symm.trans hz
          exact absurd ht hf
    · have hraised : Raised i s' := .inr hrej
      refine iff_of_true ⟨fun f _ hf => absurd hf (hraised.not_appendedTo f), fun _ _ _ _ _ => ⟨hraised, hexecs⟩⟩
        (.inr ?_)
      intro f y hf
      exact absurd hbroken hf.not_allBroken

/-- Executor 0 of thread 1, and executor 1 of thread 2 above it, whose awaited future is resolved. -/
def nested : List Action := [.create 0 1 none, .enter 0 1, .create 1 2 (some 0), .enter 1 2, .resolve 1, .done 1]

/-- Thread 1 calls `submit` on the executor of thread 2, and its item lands in its own queue. -/
theorem submitted_to_self : ∃ s₀ s s', machine.run State.init nested = some s₀ ∧ Submits 0 1 1 s₀ s s' ∧
    AppendedTo 0 0 s' ∧ (s.execs 0).map Executor.workThread = some 1 := by
  refine ⟨_, _, _, rfl, @Submits.walked _ _ _ _ _ _ _ [.walk 0] rfl rfl rfl rfl ?_, rfl, rfl⟩
  intro g hg
  cases hg

/-- A third thread that does the same. -/
theorem submits_third : ∃ s₀ s s', machine.run State.init nested = some s₀ ∧ Submits 0 3 1 s₀ s s' ∧
    AppendedTo 0 0 s' ∧ Nearest s 1 0 ∧ (s.execs 0).map Executor.workThread = some 1 := by
  refine ⟨_, _, _, rfl, @Submits.walked _ _ _ _ _ _ _ [.walk 0] rfl rfl rfl rfl ?_, rfl,
    .up rfl rfl rfl (.here rfl rfl), rfl⟩
  intro g hg
  cases hg

theorem ownThreadSafe_third : ∃ s₀ s s', Submits 0 3 1 s₀ s s' ∧ OwnThreadSafe 0 3 1 s s' := by
  obtain ⟨s₀, s, s', -, h, -, hnear, hthread⟩ := submits_third
  refine ⟨s₀, s, s', h, (ownThread_iff h).2 (.inr fun f y hf hy => ?_)⟩
  cases hf.unique hnear
  rw [hy] at hthread
  rw [Option.some.inj hthread]
  decide

end Asgiref.CurrentThreadExecutor
