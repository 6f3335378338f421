import Asgiref.AsyncSingleThread.Places
import Asgiref.Lib.Inevitable
import Mathlib.Data.Finset.Max
import Mathlib.Data.Set.Card

/-!
# Every call finishes

Whether all code that has been started comes to its end, if none of it calls anything more.

* `Finishing`: the steps that start no code and make no calls; `Finishes`: in whatever order they are taken, they come
  to a state in which all bodies have ended;
* `rank`: what they have to do, `rank_lt_step`: each of them does some of it;
* `Region`: bodies that wait for each other only; `Region.goesOn`: the deepest of them can go on, or is a coroutine in
  the queue of a busy worker;
* `Answered`: `main_wrap` comes to its `try` statement, and futures take what functions raise; `Abandoned`: a body waits
  for a future that nobody resolves, forever;
* `finishes_iff_answered`: all that is started finishes, all along a run, iff the calls under a coroutine that their
  worker is running find a parent loop, and every call is answered.

There are threads enough: a function that is not handed to the thread of a call always finds an idle one.
-/

namespace Asgiref.AsyncSingleThread

open Asgiref.Python Asgiref.Lib

/-- What goes on with code that was started, and calls nothing.  A loop is closed once. -/
def Finishing (s : State) : Action → Prop
  | .start _ _ | .runLoop _ _ | .endCoroutine _ | .release _ | .returnAsync _ | .endFunction _ | .resume _ _ _ => True
  | .closeLoop l => s.isOpen l = true
  | _ => False

def AllEnded (s : State) : Prop := ∀ i x, s.bodies i = some x → x.phase = .ended

/-- All that was started comes to its end, in whatever order it goes on. -/
def Finishes (s : State) : Prop := machine.Inevitable Finishing AllEnded s

variable {s s' : State} {a : Action} {i : BodyId} {x x' : Body} {n : Nat}

/-! ### What is left to do -/

def Phase.weight : Phase → Nat
  | .queued => 5
  | .blocked _ _ | .abandoned _ => 3
  | .onThread _ | .onLoop _ => 2
  | .ended => 0

def Body.weight (x : Body) : Nat := x.phase.weight + x.awaiting.length

def weight (s : State) (i : Nat) : Nat :=
  match s.bodies i with
  | some x => x.weight
  | none => 0

/-- The worker is to come back from `asyncio.run`. -/
def busy (s : State) (p : Nat) : Nat := if ((s.pools p).bind Pool.current).isSome then 1 else 0

def openLoops (s : State) : Set LoopId := {l | s.isOpen l = true}

noncomputable def rank (n : Nat) (s : State) : Nat :=
  (∑ i ∈ Finset.range n, weight s i) + (∑ p ∈ Finset.range n, busy s p) + (openLoops s).ncard

theorem weight_of_body (hx : s.bodies i = some x) : weight s i = x.weight := by
  simp only [weight, hx]

theorem weight_setBody_self (s : State) (i : Nat) (y : Body) : weight (s.setBody i y) i = y.weight :=
  weight_of_body (bodies_setBody_self s i y)

theorem weight_setBody_of_ne (s : State) (y : Body) {i j : Nat} (hj : j ≠ i) :
    weight (s.setBody i y) j = weight s j := by
  simp only [weight, State.bodies_setBody, if_neg hj]

/-- A step that changes one body and one pool. -/
theorem rank_lt {i p : Nat} (hi : i < n) (hp : p < n) (hweight : ∀ j, j ≠ i → weight s' j = weight s j)
    (hbusy : ∀ q, q ≠ p → busy s' q = busy s q)
    (hlt : weight s' i + busy s' p + (openLoops s').ncard < weight s i + busy s p + (openLoops s).ncard) :
    rank n s' < rank n s := by
  have hsum := sum_add_sum_change hi hp hweight hbusy
  simp only [rank]
  omega

/-- A step that changes the body `i`, and neither pools nor what loops are open. -/
theorem rank_lt_of_body {i : Nat} {y : Body} (hi : i < n) (hx : s.bodies i = some x)
    (hbodies : s'.bodies = (s.setBody i y).bodies) (hpools : s'.pools = s.pools) (hopen : openLoops s' = openLoops s)
    (hlt : y.weight < x.weight) : rank n s' < rank n s := by
  have hweight : ∀ j, weight s' j = weight (s.setBody i y) j := by
    intro j
    simp only [weight, hbodies]
  have hbusy : ∀ p, busy s' p = busy s p := by
    intro p
    simp only [busy, hpools]
  refine rank_lt hi hi (fun j hj => ?_) (fun p _ => hbusy p) ?_
  · rw [hweight, weight_setBody_of_ne s y hj]
  · rw [hweight, weight_setBody_self, weight_of_body hx, hbusy, hopen]
    omega

theorem mem_openLoops_setLoop {u : State} {l m : LoopId} {k : Loop} :
    m ∈ openLoops (u.setLoop l k) ↔ if m = l then k.isClosed = false else m ∈ openLoops u := by
  by_cases hm : m = l
  · subst hm
    simp [openLoops, State.isOpen]
  · simp [openLoops, State.isOpen, hm]

/-- The bodies and the pools have numbers below `n`. -/
structure Within (n : Nat) (s : State) : Prop where
  bodies : ∀ i : Nat, n ≤ i → s.bodies i = none
  pools : ∀ p : Nat, n ≤ p → s.pools p = none

theorem Within.body_lt (h : Within n s) {j : Nat} (hx : s.bodies j = some x) : j < n := by
  by_contra hle
  rw [h.bodies j (by omega)] at hx
  cases hx

theorem Within.pool_lt (h : Within n s) {p : Nat} {y : Pool} (hy : s.pools p = some y) : p < n := by
  by_contra hle
  rw [h.pools p (by omega)] at hy
  cases hy

theorem rank_lt_start (hn : Within n s) (hx : s.bodies i = some x) (hphase : x.phase = .queued) (t : ThreadId)
    (tl : Option ThreadLocal) : rank n (start s i x t tl) < rank n s := by
  refine rank_lt_of_body (hn.body_lt hx) hx rfl rfl rfl ?_
  simp only [Body.weight, hphase, Phase.weight]
  omega

theorem rank_lt_endCoroutine (hn : Within n s) (hx : s.bodies i = some x) {l : LoopId} {k : Loop}
    (hphase : x.phase = .onLoop l) (hl : s.loops l = some k) :
    rank n ((s.goTo i x .ended).setLoop l { k with tasks := k.tasks.erase i }) < rank n s := by
  refine rank_lt_of_body (hn.body_lt hx) hx rfl rfl (Set.ext fun m => ?_) ?_
  · rw [mem_openLoops_setLoop]
    split
    · next hm => simp [openLoops, State.isOpen, hm, hl]
    · exact Iff.rfl
  · simp only [Body.weight, hphase, Phase.weight]
    omega

/-- The coroutine leaves the queue, the worker gets busy, and there is one loop more. -/
theorem rank_lt_runLoop (hn : Within n s) (hfin : (openLoops s).Finite) {p b : Nat} {y : Pool} {c : Body} {l : LoopId}
    {rest : List BodyId} (hy : s.pools p = some y) (hcur : y.current = none) (hc : s.bodies b = some c)
    (hphase : c.phase = .queued) (hl : s.loops l = none) :
    rank n (((s.goTo b c (.onLoop l)).setPool p { y with current := some (b, l), queue := rest }).setLoop l
      { tasks := [b] }) < rank n s := by
  generalize hu : ((s.goTo b c (.onLoop l)).setPool p { y with current := some (b, l), queue := rest }).setLoop l
      { tasks := [b] } = u
  have hweight : weight u b = 2 + c.awaiting.length := by
    subst hu
    exact weight_setBody_self s b _
  have hold : weight s b = 5 + c.awaiting.length := by
    rw [weight_of_body hc, Body.weight, hphase]
    rfl
  have hidle : busy s p = 0 := by simp [busy, hy, hcur]
  have hbusy : busy u p = 1 := by
    subst hu
    simp [busy, State.setLoop, State.setPool]
  have hloops : openLoops u = insert l (openLoops s) := by
    subst hu
    ext m
    rw [mem_openLoops_setLoop, Set.mem_insert_iff]
    split
    · next hm => simp [hm]
    · next hm => exact (or_iff_right hm).symm
  have hnew : l ∉ openLoops s := by simp [openLoops, State.isOpen, hl]
  have hcard : (openLoops u).ncard = (openLoops s).ncard + 1 := by
    rw [hloops, Set.ncard_insert_of_notMem hnew hfin]
  refine rank_lt (hn.body_lt hc) (hn.pool_lt hy) (fun j hj => ?_) (fun q hq => ?_) (by omega)
  · subst hu
    exact weight_setBody_of_ne s _ hj
  · subst hu
    simp [busy, State.setLoop, State.setPool, State.goTo, State.setBody, hq]

theorem rank_lt_closeLoop (hfin : (openLoops s).Finite) {l : LoopId} (hopen : s.isOpen l = true) (k : Loop) :
    rank n (s.setLoop l { k with isClosed := true }) < rank n s := by
  have hsub : openLoops (s.setLoop l { k with isClosed := true }) ⊂ openLoops s := by
    refine Set.ssubset_iff_exists.2 ⟨fun m hm => ?_, l, hopen, fun hl => ?_⟩
    · rw [mem_openLoops_setLoop] at hm
      split at hm
      · cases hm
      · exact hm
    · rw [mem_openLoops_setLoop, if_pos rfl] at hl
      cases hl
  have hcard := Set.ncard_lt_ncard hsub hfin
  exact Nat.add_lt_add_left hcard _

theorem rank_lt_release (hn : Within n s) {p : Nat} {y : Pool} (hy : s.pools p = some y) (hcur : y.current ≠ none) :
    rank n (s.setPool p { y with current := none }) < rank n s := by
  have hold : busy s p = 1 := by simp [busy, hy, Option.isSome_iff_ne_none.2 hcur]
  have hnew : busy (s.setPool p { y with current := none }) p = 0 := by simp [busy]
  have hp := hn.pool_lt hy
  refine rank_lt hp hp (fun _ _ => rfl) (fun q hq => ?_) ?_
  · simp [busy, hq]
  · rw [hold, hnew]
    exact Nat.add_lt_add_right (Nat.lt_succ_self _) _

/-- **Every step does some of it.** -/
theorem rank_lt_step (hn : Within n s) (hfin : (openLoops s).Finite) (ha : Finishing s a) (hs : step s a = some s') :
    rank n s' < rank n s := by
  have hbody : ∀ {i : BodyId} {x y : Body}, s.bodies i = some x → y.weight < x.weight →
      rank n (s.setBody i y) < rank n s := by
    intro i x y hx hlt
    exact rank_lt_of_body (hn.body_lt hx) hx rfl rfl rfl hlt
  cases stepTo_of_step hs with
  | startHandler hy hphase => exact rank_lt_start hn hy hphase _ _
  | startThread hy hphase => exact rank_lt_start hn hy hphase _ _
  | runLoop hy hcur _ hc hphase hl => exact rank_lt_runLoop hn hfin hy hcur hc hphase hl
  | endCoroutine hc hphase _ _ hl => exact rank_lt_endCoroutine hn hc hphase hl
  | closeLoop => exact rank_lt_closeLoop hfin ha _
  | release hy =>
    obtain ⟨z, b, l, hz, hcur, -⟩ := release_closed hs
    cases hy.symm.trans hz
    exact rank_lt_release hn hy (by rw [hcur]; nofun)
  | returnAsync hx hphase =>
    refine hbody hx ?_
    simp only [Body.weight, hphase, Phase.weight]
    omega
  | endFunction hx hphase =>
    refine rank_lt_of_body (hn.body_lt hx) hx rfl rfl rfl ?_
    simp only [Body.weight, hphase, Phase.weight]
    omega
  | resume hc _ hf =>
    refine hbody hc ?_
    have hlen := List.length_erase_of_mem hf
    have hpos := List.length_pos_of_mem hf
    simp only [Body.weight]
    omega
  | _ => cases ha

/-! ### What can go on -/

def GoesOn (s : State) : Prop := ∃ a, Finishing s a ∧ (step s a).isSome

theorem goesOn_endFunction (hx : s.bodies i = some x) {t : ThreadId} {rest : List BodyId}
    (hphase : x.phase = .onThread t) (hstack : (s.threads t).stack = i :: rest) : GoesOn s :=
  ⟨.endFunction i, trivial, by simp [step, hx, hphase, hstack]⟩

theorem goesOn_start (hx : s.bodies i = some x) (hphase : x.phase = .queued) {t : ThreadId}
    (hstart : (∃ l h, x.kind = .handler l h ∧ takes s t h = true) ∨ x.kind = .toThread ∧ takes s t none = true) :
    GoesOn s := by
  refine ⟨.start i t, trivial, ?_⟩
  rcases hstart with ⟨l, h, hkind, htakes⟩ | ⟨hkind, htakes⟩
  · simp [step, hx, hphase, hkind, htakes]
  · simp [step, hx, hphase, hkind, htakes]

theorem goesOn_returnAsync (hx : s.bodies i = some x) {t : ThreadId} {b : BodyId} {y : Body}
    (hphase : x.phase = .blocked t b) (hy : s.bodies b = some y) (hended : y.phase = .ended)
    (hreleased : released s b y = true) : GoesOn s :=
  ⟨.returnAsync i, trivial, by simp [step, hx, hphase, hy, hended, hreleased]⟩

theorem goesOn_resume (hx : s.bodies i = some x) {f : BodyId} {y : Body} (hf : f ∈ x.awaiting)
    (hy : s.bodies f = some y) (hended : y.phase = .ended) : GoesOn s := by
  refine ⟨.resume i f true, trivial, ?_⟩
  cases hkind : y.kind with
  | _ => simp [step, hx, hy, hf, hended, hkind]

theorem goesOn_endCoroutine (hx : s.bodies i = some x) {l : LoopId} {k : Loop} (hphase : x.phase = .onLoop l)
    (hnil : x.awaiting = []) (hfree : x.stranded = false) (hl : s.loops l = some k) : GoesOn s :=
  ⟨.endCoroutine i, trivial, by simp [step, hx, hphase, hnil, hfree, hl]⟩

/-- A worker that has nothing to do takes the next coroutine. -/
theorem goesOn_runLoop {p : PoolId} {y : Pool} {b : BodyId} {rest : List BodyId} {c : Body} {l : LoopId}
    (hy : s.pools p = some y) (hcur : y.current = none) (hqueue : y.queue = b :: rest) (hc : s.bodies b = some c)
    (hphase : c.phase = .queued) (hl : s.loops l = none) : GoesOn s :=
  ⟨.runLoop p l, trivial, by simp [step, hy, hcur, hqueue, hc, hphase, hl]⟩

/-- A worker whose loop has nothing to do closes it, and comes back. -/
theorem goesOn_close {p : PoolId} {y : Pool} {b : BodyId} {l : LoopId} {k : Loop} (hy : s.pools p = some y)
    (hcur : y.current = some (b, l)) (hl : s.loops l = some k) (hnil : k.tasks = []) : GoesOn s := by
  cases hopen : s.isOpen l with
  | true => exact ⟨.closeLoop l, hopen, by simp [step, hl, hnil]⟩
  | false => exact ⟨.release p, trivial, by simp [step, hy, hcur, hopen]⟩

/-! ### Calls without an answer -/

/-- A call on a parent loop whose `main_wrap` does not come to its `try` statement is never answered, nor is one with a
function that raises what its future does not take. -/
def Answered : Action → Prop
  | .abandon _ | .strand _ _ => False
  | _ => True

instance : DecidablePred Answered
  | .abandon _ | .strand _ _ => isFalse id
  | .root _ _ | .rootLoop _ _ | .enter _ _ | .exit _ _ | .callSync _ _ _ | .toThread _ _ | .start _ _
  | .callAsync _ _ _ _ | .runLoop _ _ | .endCoroutine _ | .closeLoop _ | .release _ | .returnAsync _ | .endFunction _
  | .resume _ _ _ => isTrue trivial

/-- The body waits for a future that nobody resolves. -/
def Body.Forsaken (x : Body) : Prop := (∃ t, x.phase = .abandoned t) ∨ x.stranded = true

/-- No body waits so. -/
def Heard (s : State) : Prop := ∀ i x, s.bodies i = some x → ¬ x.Forsaken

/-- A function or a coroutine waits so. -/
def Abandoned (s : State) : Prop :=
  ∃ i x, s.bodies i = some x ∧ ((∃ t, x.phase = .abandoned t) ∨ (∃ l, x.phase = .onLoop l) ∧ x.stranded = true)

theorem heard_init (pid : Nat) : Heard { pid := pid } := nofun

/-- Only a call that is not answered makes a body wait so. -/
theorem heard_step (h : Heard s) (ha : Answered a) (hs : step s a = some s') : Heard s' := by
  intro i x' hx' hforsaken
  cases hx : s.bodies i with
  | some x =>
    obtain ⟨y, hy, hto⟩ := body_step hs hx
    cases hx'.symm.trans hy
    have hold : ¬ x.Forsaken := h i x hx
    obtain ⟨t, ht⟩ | hstranded := hforsaken
    · have hstays : x.phase ≠ .abandoned t := fun hphase => hold (.inl ⟨t, hphase⟩)
      cases hto with
      | abandon => exact ha
      | same => exact hstays ht
      | enter => exact hstays ht
      | reset => exact hstays ht
      | callSync => exact hstays ht
      | toThread => exact hstays ht
      | resume => exact hstays ht
      | strand => exact hstays ht
      | _ => cases ht
    · cases hto with
      | strand => exact ha
      | _ => exact hold (.inr hstranded)
  | none =>
    have hborn := born_step hs hx' hx
    obtain ⟨t, ht⟩ | hstranded := hforsaken
    · cases hborn <;> cases ht
    · rw [hborn.stranded] at hstranded
      cases hstranded

/-- A function that is abandoned, or a coroutine on its loop. -/
def Phase.isAbandonedOrOnLoop : Phase → Bool
  | .abandoned _ | .onLoop _ => true
  | _ => false

/-- Neither goes on, if the coroutine is stranded. -/
theorem BodyTo.phase_eq (h : BodyTo s s' i x a x') (hphase : x.phase.isAbandonedOrOnLoop = true)
    (hstranded : ∀ l, x.phase = .onLoop l → x.stranded = true) : x'.phase = x.phase := by
  cases h with
  | start hp => rw [hp] at hphase; cases hphase
  | call hp => rw [hp] at hphase; cases hphase
  | abandon hp => rw [hp] at hphase; cases hphase
  | runLoop _ _ hp => rw [hp] at hphase; cases hphase
  | endCoroutine hp _ hfree =>
    rw [hstranded _ hp] at hfree
    cases hfree
  | returns hp => rw [hp] at hphase; cases hphase
  | endFunction hp => rw [hp] at hphase; cases hphase
  | _ => rfl

/-- It waits forever. -/
theorem abandoned_step (h : Abandoned s) (hs : step s a = some s') : Abandoned s' := by
  obtain ⟨i, x, hx, hwaits⟩ := h
  obtain ⟨x', hx', hto⟩ := body_step hs hx
  refine ⟨i, x', hx', ?_⟩
  obtain ⟨t, hphase⟩ | ⟨⟨l, hphase⟩, hstranded⟩ := hwaits
  · have hsame := hto.phase_eq (by rw [hphase]; rfl) fun l hl => by rw [hphase] at hl; cases hl
    exact .inl ⟨t, hsame.trans hphase⟩
  · have hsame := hto.phase_eq (by rw [hphase]; rfl) fun _ _ => hstranded
    refine .inr ⟨⟨l, hsame.trans hphase⟩, ?_⟩
    cases hto with
    | strand => rfl
    | _ => exact hstranded

theorem abandoned_of_not_answered (ha : ¬ Answered a) (hs : step s a = some s') : Abandoned s' := by
  cases a with
  | abandon f =>
    cases stepTo_of_step hs with
    | @abandon _ x t => exact ⟨f, _, bodies_setBody_self s f _, .inl ⟨t, rfl⟩⟩
  | strand b f =>
    cases stepTo_of_step hs with
    | strand _ _ hphase => exact ⟨b, _, bodies_setBody_self s b _, .inr ⟨⟨_, hphase⟩, rfl⟩⟩
  | _ => exact absurd trivial ha

/-- A body that waits so does not end. -/
theorem not_finishes_of_abandoned (h : Abandoned s) : ¬ Finishes s := by
  intro hfinishes
  obtain ⟨as, s', hrun, hall⟩ := hfinishes.exists_run
  obtain ⟨i, x, hx, hwaits⟩ := machine.run_invariant (fun _ _ _ h hs => abandoned_step h hs) h hrun
  obtain ⟨t, hphase⟩ | ⟨⟨l, hphase⟩, -⟩ := hwaits <;> rw [hall i x hx] at hphase <;> cases hphase

/-! ### Bodies that wait for each other -/

/-- What holds in the runs in which no call waits for its own worker, every call is answered, the calls take loops of
their own, and no `__exit__` waits. -/
structure Live (s : State) : Prop where
  inv : Inv s
  waits : Waits s
  called : Stacks s
  queues : Queues s
  works : Works s
  heard : Heard s
  finite : ∃ m, Bounded m s

theorem Live.ordered (h : Live s) : Ordered s := ⟨h.inv.tree, h.inv.pools, h.inv.loops, h.waits⟩

def Unfinished (s : State) (i : BodyId) : Prop := ∃ x, s.bodies i = some x ∧ x.phase ≠ .ended

/-- A worker whose coroutine has ended is through with its loop. -/
theorem Live.goesOn_worker (h : Live s) {p : PoolId} {y : Pool} {b : BodyId} {l : LoopId} {c : Body}
    (hy : s.pools p = some y) (hcur : y.current = some (b, l)) (hb : s.bodies b = some c) (hended : c.phase = .ended) :
    GoesOn s := by
  obtain ⟨k, hk, hunder⟩ := h.works.worker p y b l hy hcur
  refine goesOn_close hy hcur hk (List.eq_nil_iff_forall_not_mem.2 fun d hd => ?_)
  obtain ⟨z, hz, hphase⟩ := h.works.task l k d hk hd
  have hne : z.phase ≠ .ended := by
    rw [hphase]
    nofun
  rcases hunder d hd with rfl | ⟨w, hw, hbw⟩
  · cases hz.symm.trans hb
    exact hne hended
  · cases hz.symm.trans hw
    obtain ⟨c', hc', hcne⟩ := not_ended_of_above h.waits h.inv.tree hz hne hbw
    cases hb.symm.trans hc'
    exact hcne hended

/-- A call whose coroutine has ended returns, as soon as the worker is through. -/
theorem Live.goesOn_blocked (h : Live s) (hx : s.bodies i = some x) {t : ThreadId} {b : BodyId}
    {y : Body} (hphase : x.phase = .blocked t b) (hy : s.bodies b = some y) (hended : y.phase = .ended) :
    GoesOn s := by
  cases hreleased : released s b y with
  | true => exact goesOn_returnAsync hx hphase hy hended hreleased
  | false =>
    unfold released at hreleased
    split at hreleased
    · split at hreleased
      · next p _ z hz =>
        have hruns : z.current.map Prod.fst = some b := by simpa using hreleased
        obtain ⟨⟨d, l⟩, hcur, rfl⟩ := Option.map_eq_some_iff.1 hruns
        exact h.goesOn_worker hz hcur hy hended
      · cases hreleased
    · cases hreleased

/-- A coroutine in a queue is taken, or the worker is busy with another one. -/
theorem Live.goesOn_queued (h : Live s) (hx : s.bodies i = some x) {f : BodyId} {p : PoolId}
    (hphase : x.phase = .queued) (hkind : x.kind = .coroutine (some f) (some p)) :
    GoesOn s ∨ ∃ y m b l c, s.pools p = some y ∧ y.owner = some m ∧ s.table m = some p ∧ i ∈ y.queue ∧
      y.current = some (b, l) ∧ s.bodies b = some c ∧ c.phase = .onLoop l := by
  rcases h.queues i x hx hphase with hawaited | ⟨g, q, y, hkind', hy, hi⟩
  · rw [hkind] at hawaited
    cases hawaited
  · cases hkind.symm.trans hkind'
    cases hcur : y.current with
    | none =>
      cases hqueue : y.queue with
      | nil =>
        rw [hqueue] at hi
        exact absurd hi List.not_mem_nil
      | cons b rest =>
        obtain ⟨c, g, hc, hcphase, -⟩ := h.inv.pools.queue p y b hy (by rw [hqueue]; exact List.mem_cons_self ..)
        obtain ⟨m, hm⟩ := h.finite
        exact .inl (goesOn_runLoop hy hcur hqueue hc hcphase (hm.loops m (Nat.le_refl m)))
    | some d =>
      obtain ⟨b, l⟩ := d
      cases ho : y.owner with
      | none =>
        rcases h.works.own p y hy ho with hnil | ⟨hnone, -⟩
        · rw [hnil] at hi
          exact absurd hi List.not_mem_nil
        · rw [hcur] at hnone
          cases hnone
      | some m =>
        have hm := h.works.inTable p y m hy ho (.inr (by rw [hcur]; nofun))
        obtain ⟨c, hc, hcphase | hended⟩ := h.inv.pools.current p y b l hy hcur
        · exact .inr ⟨y, m, b, l, c, hy, ho, hm, hi, hcur, hc, hcphase⟩
        · exact .inl (h.goesOn_worker hy hcur hc hended)

def depth (s : State) (i : BodyId) : Nat :=
  match s.bodies i with
  | some x => x.above.length
  | none => 0

theorem depth_of_body (hx : s.bodies i = some x) : depth s i = x.above.length := by
  simp only [depth, hx]

theorem depth_of_under {j : BodyId} (hx : s.bodies i = some x) (hj : Under s i x j) : depth s j = depth s i + 1 := by
  obtain ⟨y, hy, habove⟩ := hj
  rw [depth_of_body hy, depth_of_body hx, habove, List.length_cons]

/-- Bodies that have not ended, with those they wait for: what they call, and what is on top of the stack they are
on. -/
structure Region (s : State) (V : BodyId → Prop) : Prop where
  unfinished : ∀ i, V i → Unfinished s i
  child : ∀ i x j, V i → s.bodies i = some x → Under s i x j → Unfinished s j → V j
  top : ∀ t i g rest, V i → i ∈ (s.threads t).stack → (s.threads t).stack = g :: rest → V g
  /-- a function that waits for the thread of the call by `g` -/
  thread : ∀ t i x l g h rest, V i → s.bodies i = some x → x.phase = .queued → x.kind = .handler l (some g) →
    (s.threads t).stack = h :: rest → g ∈ rest → V h

/-- The deepest of them, if it has started. -/
theorem Region.goesOn_started {V : BodyId → Prop} (hV : Region s V) (h : Live s) (hi : V i)
    (hmax : ∀ j, V j → depth s j ≤ depth s i) (hx : s.bodies i = some x) (hstarted : x.phase ≠ .queued) :
    GoesOn s := by
  have hchild : ∀ {j : BodyId}, Under s i x j → ∃ y, s.bodies j = some y ∧ y.phase = .ended := by
    intro j hj
    have hdepth := depth_of_under hx hj
    obtain ⟨y, hy, -⟩ := id hj
    by_contra hne
    have hle := hmax j (hV.child i x j hi hx hj ⟨y, hy, fun hended => hne ⟨y, hy, hended⟩⟩)
    omega
  cases hphase : x.phase with
  | queued => exact absurd hphase hstarted
  | ended =>
    obtain ⟨y, hy, hne⟩ := hV.unfinished i hi
    cases hx.symm.trans hy
    exact absurd hphase hne
  | blocked t b =>
    obtain ⟨y, hy, hended⟩ := hchild (h.inv.tree.blocked i x t b hx hphase)
    exact h.goesOn_blocked hx hphase hy hended
  | abandoned t => exact absurd (.inl ⟨t, hphase⟩) (h.heard i x hx)
  | onLoop l =>
    cases hawait : x.awaiting with
    | nil =>
      obtain ⟨k, hk, -⟩ := h.inv.loops.runs i x l hx hphase
      have hfree : x.stranded = false := Bool.eq_false_iff.2 fun hstranded => h.heard i x hx (.inr hstranded)
      exact goesOn_endCoroutine hx hphase hawait hfree hk
    | cons f rest =>
      have hf : f ∈ x.awaiting := by
        rw [hawait]
        exact List.mem_cons_self ..
      obtain ⟨y, hy, hended⟩ := hchild (h.inv.tree.awaiting i x f hx hf)
      exact goesOn_resume hx hf hy hended
  | onThread t =>
    have hmem := h.inv.threads.on i x t hx (by rw [hphase]; rfl)
    cases hstack : (s.threads t).stack with
    | nil =>
      rw [hstack] at hmem
      exact absurd hmem List.not_mem_nil
    | cons g rest =>
      have hg := hV.top t i g rest hi hmem hstack
      have hnested := h.called.nested t
      rw [hstack] at hmem hnested
      rcases List.mem_cons.1 hmem with rfl | hmem
      · exact goesOn_endFunction hx hphase hstack
      · -- the function on top is deeper
        obtain ⟨y, z, -, -, hy, hz, -, -, -, hlen⟩ := (List.pairwise_cons.1 hnested).1 i hmem
        have hle := hmax g hg
        rw [depth_of_body hy, depth_of_body hz] at hle
        omega

/-- The deepest of them, if it is a function that was not started. -/
theorem Region.goesOn_function {V : BodyId → Prop} (hV : Region s V) (h : Live s) (hi : V i)
    (hmax : ∀ j, V j → depth s j ≤ depth s i) (hx : s.bodies i = some x) (hphase : x.phase = .queued)
    (hkind : x.kind.isAwaited = true) : GoesOn s := by
  obtain ⟨m, hm⟩ := h.finite
  have hidle : takes s m none = true := by simp [takes, hm.threads m (Nat.le_refl m)]
  cases hk : x.kind with
  | root => rw [hk] at hkind; cases hkind
  | coroutine c p => rw [hk] at hkind; cases hkind
  | toThread => exact goesOn_start hx hphase (.inr ⟨hk, hidle⟩)
  | handler l e =>
    cases e with
    | none => exact goesOn_start hx hphase (.inl ⟨l, none, hk, hidle⟩)
    | some g =>
      obtain ⟨b, z, t, hz, hblocked, habove⟩ := caller_of_handler h.ordered hx hk (by rw [hphase]; nofun)
      have hmem := h.inv.threads.on g z t hz (by rw [hblocked]; rfl)
      cases hstack : (s.threads t).stack with
      | nil =>
        rw [hstack] at hmem
        exact absurd hmem List.not_mem_nil
      | cons f rest =>
        have hnested := h.called.nested t
        obtain ⟨w, hw, hwt⟩ := h.called.on t f (by rw [hstack]; exact List.mem_cons_self ..)
        rw [hstack] at hmem hnested
        rcases List.mem_cons.1 hmem with rfl | hmem
        · have htakes : takes s t (some g) = true := by simp [takes, hstack, hz, hblocked]
          exact goesOn_start hx hphase (.inl ⟨l, some g, hk, htakes⟩)
        · -- the function on top of the stack is as deep
          have hf := hV.thread t i x l g f rest hi hx hphase hk hstack hmem
          obtain ⟨w', z', -, -, hw', hz', -, -, -, hlen⟩ := (List.pairwise_cons.1 hnested).1 g hmem
          cases hz.symm.trans hz'
          have hdeep : depth s i ≤ depth s f := by
            rw [depth_of_body hx, depth_of_body hw', habove, List.length_cons, List.length_cons]
            omega
          refine hV.goesOn_started h hf (fun j hj => (hmax j hj).trans hdeep) hw ?_
          intro hq
          rw [hq] at hwt
          cases hwt

/-- **The deepest can go on**, but for coroutines in the queue of a worker. -/
theorem Region.goesOn {V : BodyId → Prop} (hV : Region s V) (h : Live s) (hne : ∃ i, V i)
    (hqueued : ∀ i x f p, V i → s.bodies i = some x → x.phase = .queued → x.kind = .coroutine (some f) (some p) →
      GoesOn s) : GoesOn s := by
  classical
  obtain ⟨j, hj⟩ := hne
  obtain ⟨m, hm⟩ := h.finite
  have hlt : ∀ k : Nat, V k → k < m := by
    intro k hk
    obtain ⟨y, hy, -⟩ := hV.unfinished k hk
    by_contra hle
    rw [hm.bodies k (by omega)] at hy
    cases hy
  obtain ⟨i, hi, hmax⟩ := Finset.exists_max_image ((Finset.range m).filter V) (depth s)
    ⟨j, Finset.mem_filter.2 ⟨Finset.mem_range.2 (hlt j hj), hj⟩⟩
  have hi' : V i := (Finset.mem_filter.1 hi).2
  have hmax' : ∀ k, V k → depth s k ≤ depth s i := by
    intro k hk
    exact hmax k (Finset.mem_filter.2 ⟨Finset.mem_range.2 (hlt k hk), hk⟩)
  obtain ⟨x, hx, -⟩ := hV.unfinished i hi'
  by_cases hphase : x.phase = .queued
  · rcases h.queues i x hx hphase with hkind | ⟨f, p, y, hkind, -⟩
    · exact hV.goesOn_function h hi' hmax' hx hphase hkind
    · exact hqueued i x f p hi' hx hphase hkind
  · exact hV.goesOn_started h hi' hmax' hx hphase

theorem unfinished_of_stack (h : Live s) {t : ThreadId} {g : BodyId} {rest : List BodyId}
    (hstack : (s.threads t).stack = g :: rest) : Unfinished s g := by
  obtain ⟨x, hx, ht⟩ := h.called.on t g (by rw [hstack]; exact List.mem_cons_self ..)
  exact ⟨x, hx, ne_ended_of_thread ht⟩

theorem region_all (h : Live s) : Region s (Unfinished s) where
  unfinished _ hi := hi
  child _ _ _ _ _ _ hj := hj
  top _ _ _ _ _ _ hstack := unfinished_of_stack h hstack
  thread _ _ _ _ _ _ _ _ _ _ _ hstack _ := unfinished_of_stack h hstack

/-- The coroutine `b`, or a body under it, if it has not ended. -/
def From (s : State) (b i : BodyId) : Prop := ∃ x, s.bodies i = some x ∧ x.phase ≠ .ended ∧ (i = b ∨ b ∈ x.above)

/-- A coroutine waits for nothing but what is under it. -/
theorem region_from (h : Live s) {b : BodyId} {c : Body} {l : LoopId} (hb : s.bodies b = some c)
    (hloop : c.phase = .onLoop l) : Region s (From s b) where
  unfinished i hi := by
    obtain ⟨x, hx, hne, -⟩ := hi
    exact ⟨x, hx, hne⟩
  child i x j hi hx hj hne := by
    obtain ⟨x', hx', -, hib⟩ := hi
    cases hx.symm.trans hx'
    obtain ⟨y, hy, habove⟩ := hj
    obtain ⟨y', hy', hyne⟩ := hne
    cases hy.symm.trans hy'
    refine ⟨y, hy, hyne, .inr ?_⟩
    rw [habove]
    rcases hib with rfl | hmem
    · exact List.mem_cons_self ..
    · exact List.mem_cons_of_mem _ hmem
  top t i g rest hi hmem hstack := by
    obtain ⟨x, hx, -, hib⟩ := hi
    obtain ⟨x', hx', ht⟩ := h.called.on t i hmem
    cases hx.symm.trans hx'
    have hib' : b ∈ x.above := by
      rcases hib with rfl | hmem
      · cases hb.symm.trans hx
        rw [hloop] at ht
        cases ht
      · exact hmem
    obtain ⟨y, hy, hyt⟩ := h.called.on t g (by rw [hstack]; exact List.mem_cons_self ..)
    have hnested := h.called.nested t
    rw [hstack] at hmem hnested
    rcases List.mem_cons.1 hmem with rfl | hmem
    · cases hx.symm.trans hy
      exact ⟨x, hx, ne_ended_of_thread ht, .inr hib'⟩
    · obtain ⟨y', z, -, -, hy', hz, -, -, hsub, -⟩ := (List.pairwise_cons.1 hnested).1 i hmem
      cases hy.symm.trans hy'
      cases hx.symm.trans hz
      exact ⟨y, hy, ne_ended_of_thread hyt, .inr (hsub b hib')⟩
  thread t i x l' g f rest hi hx hphase hkind hstack hg := by
    obtain ⟨x', hx', hne, hib⟩ := hi
    cases hx.symm.trans hx'
    obtain ⟨d, z, u, hz, hblocked, habove⟩ := caller_of_handler h.ordered hx hkind hne
    obtain ⟨y, hy, hyt⟩ := h.called.on t f (by rw [hstack]; exact List.mem_cons_self ..)
    have hnested := h.called.nested t
    rw [hstack] at hnested
    obtain ⟨y', z', u', d', hy', hz', hblocked', hd', hsub, -⟩ := (List.pairwise_cons.1 hnested).1 g hg
    cases hy.symm.trans hy'
    cases hz.symm.trans hz'
    rw [hblocked] at hblocked'
    cases hblocked'
    refine ⟨y, hy, ne_ended_of_thread hyt, .inr ?_⟩
    rcases hib with rfl | hmem
    · cases hb.symm.trans hx
      rw [hloop] at hphase
      cases hphase
    · -- `b` awaits the function, or is further up, since the caller is no coroutine
      rw [habove] at hmem
      rcases List.mem_cons.1 hmem with rfl | hmem
      · exact hd'
      · rcases List.mem_cons.1 hmem with rfl | hmem
        · cases hb.symm.trans hz
          rw [hloop] at hblocked
          cases hblocked
        · exact hsub b hmem

/-- **Something can go on**, as long as not all bodies have ended. -/
theorem Live.goesOn (h : Live s) (hne : ∃ i, Unfinished s i) : GoesOn s := by
  refine (region_all h).goesOn h hne fun i x f p _ hx hphase hkind => ?_
  rcases h.goesOn_queued hx hphase hkind with hgo | ⟨y, m, b, l, c, hy, ho, hm, -, hcur, hb, hloop⟩
  · exact hgo
  · -- the worker is busy, and what it runs waits for no queue of its own
    have hfrom : From s b b := ⟨c, hb, by rw [hloop]; nofun, .inl rfl⟩
    refine (region_from h hb hloop).goesOn h ⟨b, hfrom⟩ fun j z g q hj hz hzphase hzkind => ?_
    rcases h.goesOn_queued hz hzphase hzkind with hgo | ⟨y', m', b', l', c', hy', ho', hm', hmem, -⟩
    · exact hgo
    · obtain ⟨z', hz', -, hjb⟩ := hj
      cases hz.symm.trans hz'
      have hbz : b ∈ z.above := by
        rcases hjb with rfl | hbz
        · cases hb.symm.trans hz
          rw [hloop] at hzphase
          cases hzphase
        · exact hbz
      have hsingle := (h.inv.bears p y m j hy ho (.inr ⟨b, l, hcur, .inr ⟨z, hz, hbz⟩⟩)).1 z hz
      have hsingle' := (h.inv.bears q y' m' j hy' ho' (.inl hmem)).1 z hz
      cases hsingle.symm.trans hsingle'
      cases hm.symm.trans hm'
      cases hy.symm.trans hy'
      exact absurd ⟨p, y, b, l, j, z, hy, hcur, hmem, hz, hbz⟩ h.inv.free

/-! ### The exact condition -/

theorem live_init (pid : Nat) : Live { pid := pid } :=
  ⟨inv_init pid, waits_init pid, stacks_init pid, queues_init pid, works_init pid,
    heard_init pid, 0, bounded_init pid⟩

theorem live_step (h : Live s) (hown : OwnLoop s a) (hexit : IdleExit s a) (hC : FindsLoop s a) (ha : Answered a)
    (hs : step s a = some s') : Live s' where
  inv := inv_step h.inv hC hs
  waits := waits_step h.waits hs
  called := stacks_step h.ordered h.called hs
  queues := queues_step h.queues hs
  works := works_step h.ordered h.works hown hexit hs
  heard := heard_step h.heard ha hs
  finite := by
    obtain ⟨m, hm⟩ := h.finite
    exact ⟨_, bounded_step hm hs⟩

/-- A finishing step makes no calls and leaves no block. -/
theorem conditions_of_finishing (ha : Finishing s a) : OwnLoop s a ∧ IdleExit s a ∧ FindsLoop s a ∧ Answered a := by
  cases a with
  | exit => cases ha
  | callAsync => cases ha
  | abandon => cases ha
  | strand => cases ha
  | _ => exact ⟨trivial, trivial, trivial, trivial⟩

/-- A finishing step makes no bodies and no pools. -/
theorem within_step (hn : Within n s) (ha : Finishing s a) (hs : step s a = some s') : Within n s' where
  bodies i hi := by
    by_contra hne
    obtain ⟨x', hx'⟩ := Option.ne_none_iff_exists'.1 hne
    cases born_step hs hx' (hn.bodies i hi) <;> cases ha
  pools p hp := by
    by_contra hne
    obtain ⟨y, hy⟩ := Option.ne_none_iff_exists'.1 hne
    have hold : ∀ {z : Pool} {P : Prop}, s.pools p = some z → P := by
      intro z P hz
      rw [hn.pools p hp] at hz
      cases hz
    cases pool_step hs hy with
    | same hz => exact hold hz
    | submitted hz => exact hold hz
    | took hz => exact hold hz
    | released hz => exact hold hz
    | made => cases ha

theorem Live.finite_openLoops (h : Live s) : (openLoops s).Finite := by
  obtain ⟨m, hm⟩ := h.finite
  refine (Set.finite_lt_nat m).subset fun l hl => ?_
  by_contra hle
  have hnone := hm.loops l (not_lt.1 hle)
  simp [openLoops, State.isOpen, hnone] at hl

/-- **All comes to its end.** -/
theorem Live.finishes (h : Live s) : Finishes s := by
  obtain ⟨n, hn⟩ := h.finite
  refine machine.inevitable_of_measure (I := fun s => Live s ∧ Within n s) (rank n) (fun s hI => ?_)
    (fun s a s' hI ha hs => ?_) ⟨h, hn.bodies, hn.pools⟩
  · by_cases hne : ∃ i, Unfinished s i
    · obtain ⟨a, ha, hsome⟩ := hI.1.goesOn hne
      obtain ⟨s', hs⟩ := Option.isSome_iff_exists.1 hsome
      exact .inr ⟨a, s', ha, hs⟩
    · refine .inl fun i x hx => ?_
      by_contra hphase
      exact hne ⟨i, x, hx, hphase⟩
  · obtain ⟨hown, hexit, hC, hanswered⟩ := conditions_of_finishing ha
    exact ⟨⟨live_step hI.1 hown hexit hC hanswered hs, within_step hI.2 ha hs⟩, rank_lt_step hI.2 hI.1.finite_openLoops ha hs⟩

/-- What hangs does not end. -/
theorem not_finishes (h : Ordered s) (hd : Deadlocked s) : ¬ Finishes s := by
  intro hfinishes
  obtain ⟨as, s', hrun, hall⟩ := hfinishes.exists_run
  obtain ⟨p, y, b, l, i, c, hy, hcur, hi, hc, hb⟩ := hd
  obtain ⟨y', c', hy', -, hi', hc', -⟩ := hangs_run h ⟨y, c, hy, hcur, hi, hc, hb⟩ hrun
  have hO : Ordered s' := machine.run_invariant (fun _ _ _ h hs => ordered_step h hs) h hrun
  obtain ⟨d, f, hd, hphase, -⟩ := hO.pools.queue p y' i hy' hi'
  rw [hall i d hd] at hphase
  cases hphase

/-- **All that was started finishes**, from every state of a run, iff the calls under a coroutine that their worker is
running find a parent loop and every call is answered.  The calls take loops of their own, and no `__exit__` has to
wait. -/
theorem finishes_iff_answered {pid : Nat} {as : List Action} (hrun : machine.run { pid := pid } as = some s)
    (hown : machine.Meets OwnLoop { pid := pid } as) (hexit : machine.Meets IdleExit { pid := pid } as) :
    machine.Along (fun _ _ s' => Finishes s') { pid := pid } as ↔
      machine.Meets (fun s a => FindsLoop s a ∧ Answered a) { pid := pid } as := by
  refine machine.along_iff_meets_of_meets (K := Live) ?_ ?_ (live_init pid) (machine.meets_and hown hexit) hrun
  · intro s a s' h hD hC hs
    have hlive := live_step h hD.1 hD.2 hC.1 hC.2 hs
    exact ⟨hlive.finishes, hlive⟩
  · intro s a s' h hC hs
    by_cases ha : Answered a
    · exact not_finishes (ordered_step h.ordered hs) (deadlocked_of_not_findsLoop (fun hF => hC ⟨hF, ha⟩) hs)
    · exact not_finishes_of_abandoned (abandoned_of_not_answered ha hs)

/-- The nested call goes to the loop of its own `SyncToAsync` call, and the pool is idle when the first function leaves
the object. -/
theorem finishes_nested : machine.Along (fun _ _ s' => Finishes s') { pid := 1 } nested :=
  (finishes_iff_answered (s := (machine.run { pid := 1 } nested).get rfl) rfl (by decide) (by decide)).2 (by decide)

end Asgiref.AsyncSingleThread
