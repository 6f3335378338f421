import Asgiref.CurrentThreadExecutor.Asleep
import Asgiref.CurrentThreadExecutor.Submit
import Asgiref.Lib.Inevitable

/-!
# The executors come to rest

What the threads do by themselves, in whatever order, comes to an end, and then everything waits for the outside.

* `Internal`: the steps of the loops, of the walks and of the callback `done`; outside are new executors and items, the
  start of a loop, the resolution of an awaited future, a cancellation, and the end of a function;
* `AtRest`: each loop has returned, is inside a function, or sleeps with an empty queue and an unresolved future; and no
  item waits but for a loop that was not entered or is inside a function;
* `Ready`: what every run keeps; `Ready.atRest_or_internal`: where not everything is at rest, some thread can go on;
* `comes_to_rest`: rest is inevitable.
-/

namespace Asgiref.CurrentThreadExecutor

open Asgiref.Python Asgiref.Lib

/-- What the threads do by themselves. -/
def Internal (_ : State) : Action → Prop
  | .done _ | .loop _ | .run _ | .walk _ => True
  | _ => False

/-- The loop has not been entered, or is inside a function. -/
def LoopPc.isAway : LoopPc → Bool
  | .notEntered | .calling _ => true
  | _ => false

/-- The work thread is not in the loop, or sleeps there for a reason. -/
def Executor.Rests (x : Executor) : Prop :=
  x.pc.isAway = true ∨ x.pc = .returned ∨ x.pc = .waiting false ∧ x.workItems = [] ∧ x.awaitedDone = false

/-- The item was refused, is through, or waits for a function or for the start of a loop. -/
def WorkItem.Rests (s : State) (it : WorkItem) : Prop :=
  match it.place with
  | .rejected | .finished | .calling _ => True
  | .queued e => ∃ x, s.execs e = some x ∧ x.pc.isAway = true
  | .walking _ | .popped _ => False

structure AtRest (s : State) : Prop where
  exec : ∀ e x, s.execs e = some x → x.Rests
  item : ∀ i it, s.items i = some it → it.Rests s

variable {s s' : State} {a : Action} {e : ExecutorId} {x x' : Executor} {i : ItemId} {it it' : WorkItem}

/-! ### What is there, and what comes -/

/-- An executor was there, or is created. -/
theorem exec_step (hs : step s a = some s') (hx' : s'.execs e = some x') :
    (∃ x, s.execs e = some x ∧ x.Grows x') ∨ ∃ t old, a = .create e t old ∧ s.execs e = none ∧
      (∀ o, old = some o → (s.execs o).isSome) ∧ x' = { workThread := t, oldExecutor := old } := by
  cases hx : s.execs e with
  | some x =>
    obtain ⟨w, hw, hgrows⟩ := grows_step hs hx
    cases hx'.symm.trans hw
    exact .inl ⟨x, rfl, hgrows⟩
  | none =>
    have hset : ∀ {f : ExecutorId} {y z : Executor} {P : Prop}, s.execs f = some y →
        (s.setExec f z).execs e = some x' → P := by
      intro f y z P hy hz
      rw [State.execs_setExec] at hz
      split at hz
      · next hef =>
        rw [← hef, hx] at hy
        cases hy
      · rw [hx] at hz
        cases hz
    have hold : ∀ {P : Prop}, s.execs e = some x' → P := by
      intro P h
      rw [hx] at h
      cases h
    cases stepTo_of_step hs with
    | @create f t old hnone hchain =>
      rw [State.execs_setExec] at hx'
      split at hx'
      · next hef =>
        cases hx'
        subst hef
        exact .inr ⟨t, old, rfl, rfl, hchain, rfl⟩
      · exact hold hx'
    | enterDone hy => exact hset hy hx'
    | enter hy => exact hset hy hx'
    | resolve hy => exact hset hy hx'
    | done hy => exact hset hy hx'
    | loopReturn hy => exact hset hy hx'
    | loopWait hy => exact hset hy hx'
    | loopPop hy => exact hset hy hx'
    | run hy =>
      unfold runItem at hx'
      split at hx' <;> exact hset hy hx'
    | complete hy =>
      unfold completeItem at hx'
      split at hx' <;> exact hset hy hx'
    | walkAppend _ _ hy => exact hset hy hx'
    | enterRefused | submitRefused | submit | walkRejected | walkUp | cancel => exact hold hx'

/-- An item was there, or is submitted. -/
theorem items_step (hs : step s a = some s') (hit : s.items i = none) (hit' : s'.items i = some it') :
    ∃ t e, a = .submit i t e := by
  have hset : ∀ {u : State} {j : ItemId} {jt kt : WorkItem} {P : Prop}, u.items = s.items → s.items j = some jt →
      (u.setItem j kt).items i = some it' → P := by
    intro u j jt kt P hu hjt h
    rw [State.items_setItem, hu] at h
    split at h
    · next hij =>
      rw [← hij, hit] at hjt
      cases hjt
    · rw [hit] at h
      cases h
  have hold : ∀ {P : Prop}, s.items i = some it' → P := by
    intro P h
    rw [hit] at h
    cases h
  cases stepTo_of_step hs with
  | @submit j t f =>
    rw [State.items_setItem] at hit'
    split at hit'
    · next hij => exact ⟨t, f, by rw [hij]⟩
    · exact hold hit'
  | loopPop _ _ _ hj => exact hset (by rfl) hj hit'
  | run _ _ hj =>
    unfold runItem at hit'
    split at hit'
    · exact hold hit'
    all_goals exact hset (by rfl) hj hit'
  | complete _ _ hj =>
    unfold completeItem at hit'
    split at hit'
    · exact hold hit'
    · exact hset (by rfl) hj hit'
  | walkRejected hj => exact hset (by rfl) hj hit'
  | walkUp hj => exact hset (by rfl) hj hit'
  | walkAppend hj => exact hset (by rfl) hj hit'
  | cancel hj => exact hset (by rfl) hj hit'
  | _ => exact hold hit'

/-- The executors and the items have numbers below `n`. -/
structure Below (n : Nat) (s : State) : Prop where
  execs : ∀ e : Nat, n ≤ e → s.execs e = none
  items : ∀ i : Nat, n ≤ i → s.items i = none

/-- An executor is higher than its `_old_executor`. -/
def Climbs (height : ExecutorId → Nat) (s : State) : Prop :=
  ∀ e x o, s.execs e = some x → x.oldExecutor = some o → height o < height e

variable {height : ExecutorId → Nat} {n : Nat}

theorem Below.exec_lt (h : Below n s) {f : Nat} (hx : s.execs f = some x) : f < n := by
  by_contra hle
  rw [h.execs f (by omega)] at hx
  cases hx

theorem Below.item_lt (h : Below n s) {j : Nat} (hit : s.items j = some it) : j < n := by
  by_contra hle
  rw [h.items j (by omega)] at hit
  cases hit

/-- The number of what the action makes. -/
def Action.bound : Action → Nat
  | .create e _ _ => e + 1
  | .submit i _ _ => i + 1
  | _ => 0

theorem below_step (h : Below n s) (hs : step s a = some s') : Below (max n a.bound) s' where
  execs f hf := by
    by_contra hne
    obtain ⟨x', hx'⟩ := Option.ne_none_iff_exists'.1 hne
    rcases exec_step hs hx' with ⟨x, hx, -⟩ | ⟨t, old, rfl, -⟩
    · have hlt := h.exec_lt hx
      omega
    · simp only [Action.bound] at hf
      omega
  items j hj := by
    by_contra hne
    obtain ⟨it', hit'⟩ := Option.ne_none_iff_exists'.1 hne
    obtain ⟨t, f, rfl⟩ := items_step hs (h.items j (by omega)) hit'
    simp only [Action.bound] at hj
    omega

/-- A new executor is put above the one it refers to, and no other refers to it. -/
theorem climbs_step (hI : Inv s) (h : Climbs height s) (hs : step s a = some s') :
    ∃ height', Climbs height' s' := by
  by_cases hcreate : ∃ e t o, a = .create e t (some o)
  · obtain ⟨e, t, o, rfl⟩ := hcreate
    refine ⟨Function.update height e (height o + 1), fun f x' p hx' hp => ?_⟩
    have hold : ∀ {g : ExecutorId}, s.execs e = none → (s.execs g).isSome → g ≠ e := by
      rintro g hnone hsome rfl
      rw [hnone] at hsome
      cases hsome
    have hnone : s.execs e = none := by
      cases stepTo_of_step hs with
      | create hnone => exact hnone
    rcases exec_step hs hx' with ⟨x, hx, hgrows⟩ | ⟨u, old, ha, -, hchain, rfl⟩
    · have hp' : x.oldExecutor = some p := hgrows.oldExecutor.symm.trans hp
      rw [Function.update_of_ne (hold hnone (hI.chain f x p hx hp')),
        Function.update_of_ne (hold hnone (by rw [hx]; rfl))]
      exact h f x p hx hp'
    · cases ha
      cases hp
      rw [Function.update_of_ne (hold hnone (hchain o rfl)), Function.update_self]
      exact Nat.lt_succ_self _
  · refine ⟨height, fun f x' p hx' hp => ?_⟩
    rcases exec_step hs hx' with ⟨x, hx, hgrows⟩ | ⟨u, old, ha, -, -, rfl⟩
    · exact h f x p hx (hgrows.oldExecutor.symm.trans hp)
    · exact absurd ⟨f, u, p, by rw [ha, show old = some p from hp]⟩ hcreate

/-! ### Something can go on -/

/-- What holds in every run. -/
structure Ready (s : State) : Prop where
  inv : Inv s
  asleep : ∀ e x, s.execs e = some x → IdleAsleep x
  wakes : ∀ e x, s.execs e = some x → Wakes x

theorem ready_init : Ready State.init := ⟨inv_init, nofun, nofun⟩

theorem ready_step (h : Ready s) (hs : step s a = some s') : Ready s' where
  inv := inv_step h.inv hs
  asleep := idleAsleep_step h.asleep hs
  wakes e x' hx' := by
    rcases exec_step hs hx' with ⟨x, hx, -⟩ | ⟨t, old, -, -, -, rfl⟩
    · obtain ⟨y, hy, hkeeps⟩ := wakes_step hs hx (h.wakes e x hx)
      cases hx'.symm.trans hy
      exact hkeeps.wakes
    · exact ⟨fun hne => absurd rfl hne, nofun⟩

/-- A loop that can take the lock goes on: what it takes out of the queue is an item. -/
theorem Ready.loop (h : Ready s) (hx : s.execs e = some x) (hpc : x.pc = .locking ∨ x.pc = .waiting true) :
    (step s (.loop e)).isSome := by
  rw [step_loop hx hpc]
  unfold loopBlock
  split
  · split <;> rfl
  · next j rest hq =>
    have hplace := ((h.inv.exec e x hx).queued j).1 (by rw [hq]; exact List.mem_cons_self ..)
    obtain ⟨it, hit, -⟩ := Option.map_eq_some_iff.1 hplace
    simp [hit]

/-- The work thread rests, or goes on, or its executor is to be told that the future is done. -/
theorem Ready.exec_rests (h : Ready s) (hx : s.execs e = some x)
    (hstuck : ∀ a, Internal s a → ¬ (step s a).isSome) : x.Rests := by
  have hE := h.inv.exec e x hx
  cases hpc : x.pc with
  | notEntered => exact .inl (by rw [hpc]; rfl)
  | calling j => exact .inl (by rw [hpc]; rfl)
  | returned => exact .inr (.inl hpc)
  | escaped ex => exact absurd hpc (hE.escaped ex)
  | locking => exact absurd (h.loop hx (.inl hpc)) (hstuck (.loop e) trivial)
  | popped j =>
    obtain ⟨it, hit, -⟩ := Option.map_eq_some_iff.1 ((hE.popped j).1 hpc)
    exact absurd (by rw [step_run hx hpc hit]; rfl) (hstuck (.run e) trivial)
  | waiting notified =>
    cases notified with
    | true => exact absurd (h.loop hx (.inr hpc)) (hstuck (.loop e) trivial)
    | false =>
      refine .inr (.inr ⟨hpc, (h.asleep e x hx hpc).1, ?_⟩)
      by_contra hne
      have hdone : x.awaitedDone = true := by simpa using hne
      cases hreg : x.registered with
      | true => exact hstuck (.done e) trivial (by rw [step_done hx hdone hreg]; rfl)
      | false => exact (h.wakes e x hx).not_waiting hreg hpc

theorem Ready.item_rests (h : Ready s) (hit : s.items i = some it)
    (hstuck : ∀ a, Internal s a → ¬ (step s a).isSome) : it.Rests s := by
  have hplace := State.placeOf_of_items hit
  unfold WorkItem.Rests
  cases hp : it.place with
  | rejected => trivial
  | finished => trivial
  | calling f => trivial
  | walking f =>
    rw [hp] at hplace
    obtain ⟨y, hy⟩ := Option.isSome_iff_exists.1 (h.inv.home i _ f hplace rfl)
    exact hstuck (.walk i) trivial (by rw [step_walk hit hp hy]; rfl)
  | popped f =>
    rw [hp] at hplace
    obtain ⟨y, hy⟩ := Option.isSome_iff_exists.1 (h.inv.home i _ f hplace rfl)
    have hpc := ((h.inv.exec f y hy).popped i).2 hplace
    rcases h.exec_rests hy hstuck with haway | hret | ⟨hwait, -⟩ <;> rw [hpc] at *
    · cases haway
    · cases hret
    · cases hwait
  | queued f =>
    rw [hp] at hplace
    obtain ⟨y, hy⟩ := Option.isSome_iff_exists.1 (h.inv.home i _ f hplace rfl)
    have hmem := ((h.inv.exec f y hy).queued i).2 hplace
    refine ⟨y, hy, ?_⟩
    rcases h.exec_rests hy hstuck with haway | hret | ⟨-, hnil, -⟩
    · exact haway
    · rw [((h.inv.exec f y hy).returned hret).1] at hmem
      exact absurd hmem List.not_mem_nil
    · rw [hnil] at hmem
      exact absurd hmem List.not_mem_nil

/-- **Something can go on**, where not everything is at rest. -/
theorem Ready.atRest_or_internal (h : Ready s) : AtRest s ∨ ∃ a s', Internal s a ∧ step s a = some s' := by
  by_cases hgo : ∃ a s', Internal s a ∧ step s a = some s'
  · exact .inr hgo
  · have hstuck : ∀ a, Internal s a → ¬ (step s a).isSome := by
      intro a ha hsome
      obtain ⟨s', hs⟩ := Option.isSome_iff_exists.1 hsome
      exact hgo ⟨a, s', ha, hs⟩
    exact .inl ⟨fun e x hx => h.exec_rests hx hstuck, fun i it hit => h.item_rests hit hstuck⟩

/-! ### What is left to do -/

def LoopPc.weight : LoopPc → Nat
  | .locking | .waiting true | .popped _ => 1
  | _ => 0

def Executor.weight (x : Executor) : Nat := x.pc.weight + if x.registered then 2 else 0

/-- An item has to go up the chain, into a queue, out of it and into the function. -/
def Place.weight (height : ExecutorId → Nat) : Place → Nat
  | .walking e => 5 + height e
  | .queued _ => 3
  | .popped _ => 2
  | _ => 0

def execWeight (s : State) (e : Nat) : Nat := (s.execs e).elim 0 Executor.weight

def itemWeight (height : ExecutorId → Nat) (s : State) (i : Nat) : Nat := (s.placeOf i).elim 0 (Place.weight height)

def rank (height : ExecutorId → Nat) (n : Nat) (s : State) : Nat :=
  (∑ e ∈ Finset.range n, execWeight s e) + ∑ i ∈ Finset.range n, itemWeight height s i

theorem rank_lt {e i : Nat} (he : e < n) (hi : i < n) (hexec : ∀ f, f ≠ e → execWeight s' f = execWeight s f)
    (hitem : ∀ j, j ≠ i → itemWeight height s' j = itemWeight height s j)
    (hlt : execWeight s' e + itemWeight height s' i < execWeight s e + itemWeight height s i) :
    rank height n s' < rank height n s := by
  have hsum := sum_add_sum_change he hi hexec hitem
  simp only [rank]
  omega

theorem execWeight_of (hx : s.execs e = some x) : execWeight s e = x.weight := by
  rw [execWeight, hx]
  rfl

theorem itemWeight_of (hit : s.items i = some it) : itemWeight height s i = it.place.weight height := by
  rw [itemWeight, State.placeOf_of_items hit]
  rfl

/-- A step on one executor. -/
theorem rank_lt_exec (hb : Below n s) (hx : s.execs e = some x) {y : Executor} (hlt : y.weight < x.weight) :
    rank height n (s.setExec e y) < rank height n s := by
  have he := hb.exec_lt hx
  refine rank_lt he he (fun f hf => ?_) (fun _ _ => rfl) ?_
  · simp [execWeight, hf]
  · have hnew : execWeight (s.setExec e y) e = y.weight := execWeight_of (by simp)
    rw [execWeight_of hx, hnew]
    exact Nat.add_lt_add_right hlt _

/-- A step on one item. -/
theorem rank_lt_item (hb : Below n s) (hit : s.items i = some it)
    (hlt : it'.place.weight height < it.place.weight height) :
    rank height n (s.setItem i it') < rank height n s := by
  have hi := hb.item_lt hit
  refine rank_lt hi hi (fun _ _ => rfl) (fun j hj => ?_) ?_
  · simp [itemWeight, hj]
  · have hnew : itemWeight height (s.setItem i it') i = it'.place.weight height := itemWeight_of (by simp)
    rw [itemWeight_of hit, hnew]
    exact Nat.add_lt_add_left hlt _

/-- A step on one executor and one item. -/
theorem rank_lt_move (hb : Below n s) (hx : s.execs e = some x) (hit : s.items i = some it) {y : Executor}
    (hlt : y.weight + it'.place.weight height < x.weight + it.place.weight height) :
    rank height n ((s.setExec e y).setItem i it') < rank height n s := by
  refine rank_lt (hb.exec_lt hx) (hb.item_lt hit) (fun f hf => ?_) (fun j hj => ?_) ?_
  · simp [execWeight, hf]
  · simp [itemWeight, hj]
  · have hexec : execWeight ((s.setExec e y).setItem i it') e = y.weight := execWeight_of (by simp)
    have hitem : itemWeight height ((s.setExec e y).setItem i it') i = it'.place.weight height :=
      itemWeight_of (by simp)
    rw [execWeight_of hx, itemWeight_of hit, hexec, hitem]
    exact hlt

/-- A notification lets the thread take the lock once more. -/
theorem weight_notify (x : Executor) : x.notify.pc.weight ≤ x.pc.weight + 1 := by
  rcases notify_pc x with hpc | ⟨b, -, hpc⟩
  · rw [hpc]
    exact Nat.le_succ _
  · rw [hpc]
    exact Nat.le_add_left _ _

theorem weight_lockable {pc : LoopPc} (h : pc = .locking ∨ pc = .waiting true) : pc.weight = 1 := by
  rcases h with rfl | rfl <;> rfl

theorem rank_lt_run (hI : Inv s) (hb : Below n s) (hx : s.execs e = some x) (hpc : x.pc = .popped i)
    (hit : s.items i = some it) : rank height n (runItem s e x i it) < rank height n s := by
  have hplace := State.place_eq hit (((hI.exec e x hx).popped i).1 hpc)
  unfold runItem
  split
  · refine rank_lt_exec hb hx ?_
    simp only [Executor.weight, hpc, LoopPc.weight]
    omega
  · refine rank_lt_move hb hx hit ?_
    simp only [Executor.weight, hpc, hplace, LoopPc.weight, Place.weight]
    omega
  · refine rank_lt_move hb hx hit ?_
    simp only [Executor.weight, hpc, hplace, LoopPc.weight, Place.weight]
    omega

/-- **Every step does some of it.** -/
theorem rank_lt_step (hI : Inv s) (hb : Below n s) (hc : Climbs height s) (ha : Internal s a)
    (hs : step s a = some s') : rank height n s' < rank height n s := by
  cases stepTo_of_step hs with
  | @done e x hx _ hr =>
    refine rank_lt_exec hb hx ?_
    have hle := weight_notify { x with broken := true }
    simp only [Executor.weight, Executor.done, hr] at hle ⊢
    simp only [if_true, Bool.false_eq_true, if_false]
    omega
  | loopReturn hx hpc =>
    refine rank_lt_exec hb hx ?_
    simp only [Executor.weight]
    rw [weight_lockable hpc]
    simp only [LoopPc.weight]
    omega
  | loopWait hx hpc =>
    refine rank_lt_exec hb hx ?_
    simp only [Executor.weight]
    rw [weight_lockable hpc]
    simp only [LoopPc.weight]
    omega
  | @loopPop e x i rest it hx hpc hq hit =>
    have hqueued := ((hI.exec e x hx).queued i).1 (by rw [hq]; exact List.mem_cons_self ..)
    refine rank_lt_move hb hx hit ?_
    simp only [Executor.weight]
    rw [weight_lockable hpc, State.place_eq hit hqueued]
    simp only [LoopPc.weight, Place.weight]
    omega
  | run hx hpc hit => exact rank_lt_run hI hb hx hpc hit
  | walkRejected hit hp =>
    refine rank_lt_item hb hit ?_
    simp only [hp, Place.weight]
    omega
  | walkUp hit hp hx _ ho =>
    refine rank_lt_item hb hit ?_
    have hlt := hc _ _ _ hx ho
    simp only [hp, Place.weight]
    omega
  | @walkAppend i e x it hit hp hx =>
    refine rank_lt_move hb hx hit ?_
    have hle := weight_notify { x with workItems := x.workItems ++ [i], appended := x.appended ++ [i] }
    have hflags := (notify_flags { x with workItems := x.workItems ++ [i], appended := x.appended ++ [i] }).2.1
    simp only [Executor.weight, Executor.append, hp, Place.weight, hflags] at hle ⊢
    omega
  | _ => cases ha

/-! ### Rest -/

/-- A step of the threads by themselves makes no executors and no items. -/
theorem below_internal (h : Below n s) (ha : Internal s a) (hs : step s a = some s') : Below n s' := by
  have hzero : a.bound = 0 := by
    cases a with
    | create => cases ha
    | submit => cases ha
    | _ => rfl
  have hbelow := below_step h hs
  rwa [hzero, Nat.max_zero] at hbelow

theorem climbs_internal (h : Climbs height s) (ha : Internal s a) (hs : step s a = some s') : Climbs height s' := by
  intro f x' p hx' hp
  rcases exec_step hs hx' with ⟨x, hx, hgrows⟩ | ⟨t, old, rfl, -⟩
  · exact h f x p hx (hgrows.oldExecutor.symm.trans hp)
  · cases ha

/-- **The executors come to rest** from every state of a run, in whatever order the threads go on. -/
theorem comes_to_rest {as : List Action} (hrun : machine.run State.init as = some s) :
    machine.Inevitable Internal AtRest s := by
  have hall : Ready s ∧ (∃ n, Below n s) ∧ ∃ height, Climbs height s := by
    refine machine.run_invariant (I := fun s => Ready s ∧ (∃ n, Below n s) ∧ ∃ height, Climbs height s)
      (fun s a s' h hs => ?_) ⟨ready_init, ⟨0, fun _ _ => rfl, fun _ _ => rfl⟩, fun _ => 0, nofun⟩ hrun
    obtain ⟨hready, ⟨n, hb⟩, height, hc⟩ := h
    exact ⟨ready_step hready hs, ⟨_, below_step hb hs⟩, climbs_step hready.inv hc hs⟩
  obtain ⟨hready, ⟨n, hb⟩, height, hc⟩ := hall
  refine machine.inevitable_of_measure (I := fun s => Ready s ∧ Below n s ∧ Climbs height s) (rank height n)
    (fun s h => h.1.atRest_or_internal) (fun s a s' h ha hs => ?_) ⟨hready, hb, hc⟩
  obtain ⟨hready, hb, hc⟩ := h
  exact ⟨⟨ready_step hready hs, below_internal hb ha hs, climbs_internal hc ha hs⟩,
    rank_lt_step hready.inv hb hc ha hs⟩

/-- An item that was submitted to a broken executor goes up to the running one, whose future is done meanwhile. -/
theorem comes_to_rest_nested : ∃ s, machine.run State.init
    (nested ++ [.submit 0 3 1, .walk 0, .resolve 0]) = some s ∧ machine.Inevitable Internal AtRest s :=
  ⟨_, rfl, @comes_to_rest _ (nested ++ [.submit 0 3 1, .walk 0, .resolve 0]) rfl⟩

end Asgiref.CurrentThreadExecutor
