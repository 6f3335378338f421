import Asgiref.SyncToAsync.ThreadHandler
import Mathlib.Data.List.Nodup

/-!
# Which `SyncToAsync` call an `AsyncToSync` call attaches to

`thread_handler` overwrites the thread-locals and does not restore them: after an item that was run on the same
thread in the meantime has ended, they still speak of that item.

* `Linked` — the thread-locals of a thread speak of the item it has started last, and of no other;
* `Attached` — the call takes the loop and the list of the `SyncToAsync` call whose function makes it;
* `Direct` — the lists hold the tasks of the calls the functions are blocked in;
* `attaches_iff_latest` — a call made by a function attaches to its `SyncToAsync` call exactly if the thread has
  started no other item since the function, and then a cancellation reaches its task;
* `not_attached` — a function that calls twice, and whose second call attaches elsewhere.
-/

namespace Asgiref.SyncToAsync.ThreadHandler

open Asgiref.Python Asgiref.Lib

/-- Of the frames on a stack, the handlers further in have the higher numbers. -/
def Ordered : List Frame → Prop
  | [] => True
  | .handler _ n :: rest => (∀ c' n', .handler c' n' ∈ rest → n' < n) ∧ Ordered rest
  | .call _ :: rest => Ordered rest

/-- What the thread-locals know. -/
structure Linked (s : State) : Prop where
  /-- A function on a stack was started there. -/
  frame : ∀ t c n, .handler c n ∈ (s.threads t).stack → ∃ x, s.syncCalls c = some x ∧ x.startedAt = some (t, n)
  /-- The item that was started last on a thread is the one its thread-locals speak of. -/
  latest : ∀ c x t n, s.syncCalls c = some x → x.startedAt = some (t, n) → n ≤ (s.threads t).started ∧
    (n = (s.threads t).started → (s.threads t).threadlocal =
      some { mainEventLoop := x.loop, mainEventLoopPid := s.pid, taskContext := c })
  /-- The thread-locals of a thread speak of no other item. -/
  only : ∀ t tl, (s.threads t).threadlocal = some tl → tl.mainEventLoopPid = s.pid ∧
    ∃ x, s.syncCalls tl.taskContext = some x ∧ x.startedAt = some (t, (s.threads t).started) ∧
      x.loop = tl.mainEventLoop
  ordered : ∀ t, Ordered (s.threads t).stack

theorem linked_init (pid : Nat) : Linked (State.init pid) where
  frame := nofun
  latest := nofun
  only := nofun
  ordered _ := trivial

/-! ### Steps that leave the thread-locals alone -/

/-- A step that changes the lists and the tasks. -/
theorem Linked.frameSync {s s' : State} (h : Linked s) (hpid : s'.pid = s.pid) (hthreads : s'.threads = s.threads)
    (hsync : ∀ c x, s.syncCalls c = some x → ∃ x', s'.syncCalls c = some x' ∧ x'.startedAt = x.startedAt ∧ x'.loop = x.loop)
    (hback : ∀ c x', s'.syncCalls c = some x' → x'.startedAt ≠ none →
      ∃ x, s.syncCalls c = some x ∧ x'.startedAt = x.startedAt ∧ x'.loop = x.loop) : Linked s' where
  frame t c n hm := by
    rw [hthreads] at hm
    obtain ⟨x, hx, hat⟩ := h.frame t c n hm
    obtain ⟨x', hx', ha, -⟩ := hsync c x hx
    exact ⟨x', hx', ha.trans hat⟩
  latest c x' t n hx' hat := by
    obtain ⟨x, hx, ha, hl⟩ := hback c x' hx' (by rw [hat]; nofun)
    rw [hthreads, hpid, hl]
    exact h.latest c x t n hx (ha ▸ hat)
  only t tl ht := by
    rw [hthreads] at ht ⊢
    obtain ⟨hp, x, hx, hat, hl⟩ := h.only t tl ht
    obtain ⟨x', hx', ha, hl'⟩ := hsync _ x hx
    exact ⟨by rw [hpid]; exact hp, x', hx', ha.trans hat, hl'.trans hl⟩
  ordered t := by rw [hthreads]; exact h.ordered t

/-- A step on the stack of one thread that starts no item. -/
theorem Linked.setStack {s : State} (h : Linked s) (t : ThreadId) (stack : List Frame)
    (hsub : ∀ c n, .handler c n ∈ stack → .handler c n ∈ (s.threads t).stack) (hord : Ordered stack) :
    Linked (s.setThread t { s.threads t with stack := stack }) where
  frame u c n hm := by
    rw [State.threads_setThread] at hm
    split at hm
    · rename_i hu
      rw [hu]
      exact h.frame t c n (hsub c n hm)
    · exact h.frame u c n hm
  latest c x u n hx hat := by
    rw [State.threads_setThread]
    split
    · rename_i hu
      subst hu
      exact h.latest c x u n hx hat
    · exact h.latest c x u n hx hat
  only u tl ht := by
    rw [State.threads_setThread] at ht ⊢
    split at ht
    · rename_i hu
      subst hu
      rw [if_pos rfl]
      exact h.only u tl ht
    · rename_i hu
      rw [if_neg hu]
      exact h.only u tl ht
  ordered u := by
    rw [State.threads_setThread]
    split
    · exact hord
    · exact h.ordered u

theorem linked_onList {s : State} (h : Linked s) (c : Option CallId) (f : List TaskId → List TaskId) :
    Linked (s.onList c f) := by
  unfold State.onList
  split
  · exact h
  · split
    · exact h
    · rename_i c x hx
      refine h.frameSync rfl rfl (fun d y hy => ?_) (fun d y' hy' _ => ?_)
      · rw [State.syncCalls_setSync]
        split
        · rename_i hd
          rw [hd, hx] at hy
          cases hy
          exact ⟨_, rfl, rfl, rfl⟩
        · exact ⟨y, hy, rfl, rfl⟩
      · rw [State.syncCalls_setSync] at hy'
        split at hy'
        · rename_i hd
          cases hy'
          exact ⟨x, hd ▸ hx, rfl, rfl⟩
        · exact ⟨y', hy', rfl, rfl⟩

theorem linked_setBusy {s : State} (h : Linked s) (l : Option LoopId) (b : Option TaskId) : Linked (s.setBusy l b) := by
  unfold State.setBusy
  split
  · exact h
  · exact h.frameSync rfl rfl (fun _ x hx => ⟨x, hx, rfl, rfl⟩) fun _ x hx _ => ⟨x, hx, rfl, rfl⟩

theorem linked_setAsync {s : State} (h : Linked s) (a : TaskId) (r : AsyncCall) : Linked (s.setAsync a r) :=
  h.frameSync rfl rfl (fun _ x hx => ⟨x, hx, rfl, rfl⟩) fun _ x hx _ => ⟨x, hx, rfl, rfl⟩

/-! ### The step that writes the thread-locals -/

theorem linked_threadHandler {s : State} (h : Linked s) {c : CallId} {x : SyncCall} {t : ThreadId}
    (hx : s.syncCalls c = some x) (hnew : x.startedAt = none) : Linked (threadHandler s c x t) := by
  -- what was started before was started as an earlier item, or on another thread
  have hold : ∀ d y u n, s.syncCalls d = some y → y.startedAt = some (u, n) → d ≠ c ∧ n ≤ (s.threads u).started := by
    intro d y u n hy hat
    refine ⟨?_, (h.latest d y u n hy hat).1⟩
    rintro rfl
    rw [hx] at hy
    cases hy
    rw [hnew] at hat
    cases hat
  refine ⟨fun u d n hm => ?_, fun d y u n hy hat => ?_, fun u tl ht => ?_, fun u => ?_⟩
  · rw [threads_threadHandler] at hm
    rw [syncCalls_threadHandler]
    have hframe : .handler d n ∈ (s.threads u).stack →
        ∃ y, (if d = c then some { x with startedAt := some (t, (s.threads t).started + 1) } else s.syncCalls d) = some y ∧
          y.startedAt = some (u, n) := by
      intro hm
      obtain ⟨y, hy, hat⟩ := h.frame u d n hm
      exact ⟨y, by rw [if_neg (hold d y u n hy hat).1]; exact hy, hat⟩
    split at hm
    · rename_i hu
      rcases List.mem_cons.1 hm with heq | hm
      · cases heq
        exact ⟨_, if_pos rfl, by rw [hu]⟩
      · exact hframe (hu ▸ hm)
    · exact hframe hm
  · rw [syncCalls_threadHandler] at hy
    rw [threads_threadHandler, pid_threadHandler]
    split at hy
    · rename_i hd
      cases hy
      cases hat
      rw [if_pos rfl, hd]
      exact ⟨Nat.le_refl _, fun _ => rfl⟩
    · have hle := (hold d y u n hy hat).2
      split
      · rename_i hu
        rw [hu] at hle
        exact ⟨Nat.le_succ_of_le hle, fun hn => by simp only at hn; omega⟩
      · exact h.latest d y u n hy hat
  · rw [threads_threadHandler] at ht ⊢
    rw [syncCalls_threadHandler, pid_threadHandler]
    split at ht
    · rename_i hu
      cases ht
      rw [if_pos hu, hu]
      exact ⟨rfl, _, if_pos rfl, rfl, rfl⟩
    · rename_i hu
      obtain ⟨hp, y, hy, hat, hl⟩ := h.only u tl ht
      rw [if_neg hu]
      exact ⟨hp, y, by rw [if_neg (hold _ y u _ hy hat).1]; exact hy, hat, hl⟩
  · rw [threads_threadHandler]
    split
    · refine ⟨fun d n hm => ?_, h.ordered t⟩
      obtain ⟨y, hy, hat⟩ := h.frame t d n hm
      exact Nat.lt_succ_of_le (hold d y t n hy hat).2
    · exact h.ordered u

theorem linked_step {s s' : State} {a : Action} (h : Linked s) (hstep : machine.step s a = some s') : Linked s' := by
  have hto : StepTo s a s' := stepTo_of_step hstep
  cases hto with
  | openLoop => exact h.frameSync rfl rfl (fun _ x hx => ⟨x, hx, rfl, rfl⟩) fun _ x hx _ => ⟨x, hx, rfl, rfl⟩
  | closeLoop => exact h.frameSync rfl rfl (fun _ x hx => ⟨x, hx, rfl, rfl⟩) fun _ x hx _ => ⟨x, hx, rfl, rfl⟩
  | @submit c l hnone =>
    refine h.frameSync rfl rfl (fun d x hx => ⟨x, ?_, rfl, rfl⟩) fun d x' hx' hat => ?_
    · rw [State.syncCalls_setSync, if_neg (by rintro rfl; rw [hnone] at hx; cases hx)]
      exact hx
    · rw [State.syncCalls_setSync] at hx'
      split at hx'
      · cases hx'
        exact absurd rfl hat
      · exact ⟨x', hx', rfl, rfl⟩
  | startHandler hx hnew => exact linked_threadHandler h hx hnew
  | @endHandler t c n rest hstack =>
    have hord := h.ordered t
    rw [hstack] at hord
    exact h.setStack t rest (fun d m hm => by rw [hstack]; exact List.mem_cons_of_mem _ hm) hord.2
  | @callAsync a t f =>
    refine linked_setAsync (h.setStack t (.call a :: (s.threads t).stack) (fun d m hm => ?_) (h.ordered t)) _ _
    rcases List.mem_cons.1 hm with heq | hm
    · cases heq
    · exact hm
  | register => exact linked_setAsync (linked_onList h _ _) _ _
  | resolve => exact linked_setAsync (linked_setBusy h _ _) _ _
  | remove => exact linked_setAsync (linked_setBusy (linked_onList h _ _) _ _) _ _
  | @leave t a rest r hstack =>
    have hord := h.ordered t
    rw [hstack] at hord
    exact h.setStack t rest (fun d m hm => by rw [hstack]; exact List.mem_cons_of_mem _ hm) hord
  | cancelNone => exact h
  | cancel => exact linked_setAsync h _ _

/-! ### The lists -/

/-- The function of `c` is blocked on `t` in the call `a`, which its body has made. -/
def BlockedIn (s : State) (t : ThreadId) (c : CallId) (a : TaskId) : Prop :=
  ∃ pre n post, (s.threads t).stack = pre ++ .call a :: .handler c n :: post

/-- The call was left, or can be. -/
def AsyncCall.Over (r : AsyncCall) : Prop := r.phase = .removed ∨ r.phase = .resolved ∧ r.ranOn.isSome

/-- What the lists know. -/
structure Direct (s : State) : Prop where
  /-- A list holds the tasks that have read it, between `append` and `remove`. -/
  listed : ∀ c x a, s.syncCalls c = some x → (a ∈ x.taskContext ↔
    ∃ r, s.asyncCalls a = some r ∧ r.taskContext = some c ∧ (r.phase = .registered ∨ r.phase = .resolved))
  nodup : ∀ c x, s.syncCalls c = some x → x.taskContext.Nodup
  /-- A list is read after the function was started, together with the loop of its call. -/
  known : ∀ a r, s.asyncCalls a = some r →
    (∀ c, r.taskContext = some c → ∃ x, s.syncCalls c = some x ∧ x.startedAt ≠ none) ∧
    ∀ l, r.ranOn = some l → ∃ c x, r.taskContext = some c ∧ s.syncCalls c = some x ∧ x.loop = l
  /-- A parent loop is busy with a task that has resolved `call_result` and is still in its list. -/
  busy : ∀ a r l, s.asyncCalls a = some r → r.phase = .resolved → r.ranOn = some l → s.busy l = some a
  /-- While a function runs, the calls that have read its list are over, except the one it is blocked in. -/
  direct : ∀ t c n a r, .handler c n ∈ (s.threads t).stack → s.asyncCalls a = some r → r.taskContext = some c →
    BlockedIn s t c a ∨ r.Over

theorem direct_init (pid : Nat) : Direct (State.init pid) where
  listed := nofun
  nodup := nofun
  known := nofun
  busy := nofun
  direct := nofun

theorem BlockedIn.push {s s' : State} {t : ThreadId} {c : CallId} {a : TaskId} (h : BlockedIn s t c a) {f : Frame}
    (hstack : (s'.threads t).stack = f :: (s.threads t).stack) : BlockedIn s' t c a := by
  obtain ⟨pre, n, post, hs⟩ := h
  exact ⟨f :: pre, n, post, by rw [hstack, hs]; rfl⟩

theorem BlockedIn.pop {s s' : State} {t : ThreadId} {c : CallId} {a : TaskId} (h : BlockedIn s t c a) {f : Frame}
    (hstack : (s.threads t).stack = f :: (s'.threads t).stack) (hf : f ≠ .call a) : BlockedIn s' t c a := by
  obtain ⟨pre, n, post, hs⟩ := h
  rw [hstack] at hs
  cases pre with
  | nil => exact absurd (List.cons.inj hs).1 hf
  | cons g pre => exact ⟨pre, n, post, (List.cons.inj hs).2⟩

theorem BlockedIn.congr {s s' : State} {t : ThreadId} {c : CallId} {a : TaskId} (h : BlockedIn s t c a)
    (hstack : (s'.threads t).stack = (s.threads t).stack) : BlockedIn s' t c a := by
  unfold BlockedIn
  rw [hstack]
  exact h

/-- A step on the stacks, which changes no list and no task. -/
theorem Direct.stacks {s s' : State} (h : Direct s) (hasync : s'.asyncCalls = s.asyncCalls) (hbusy : s'.busy = s.busy)
    (hsync : ∀ c x', s'.syncCalls c = some x' → ∃ x, s.syncCalls c = some x ∧ x'.taskContext = x.taskContext)
    (hback : ∀ c x, s.syncCalls c = some x →
      ∃ x', s'.syncCalls c = some x' ∧ x'.loop = x.loop ∧ (x.startedAt ≠ none → x'.startedAt ≠ none))
    (hdirect : ∀ t c n a r, .handler c n ∈ (s'.threads t).stack → s.asyncCalls a = some r → r.taskContext = some c →
      BlockedIn s' t c a ∨ r.Over) : Direct s' where
  listed c x' a hx' := by
    obtain ⟨x, hx, hl⟩ := hsync c x' hx'
    rw [hl, hasync]
    exact h.listed c x a hx
  nodup c x' hx' := by
    obtain ⟨x, hx, hl⟩ := hsync c x' hx'
    rw [hl]
    exact h.nodup c x hx
  known a r hr := by
    rw [hasync] at hr
    obtain ⟨hk, hl⟩ := h.known a r hr
    refine ⟨fun c hc => ?_, fun l hr => ?_⟩
    · obtain ⟨x, hx, hat⟩ := hk c hc
      obtain ⟨x', hx', -, hat'⟩ := hback c x hx
      exact ⟨x', hx', hat' hat⟩
    · obtain ⟨c, x, hc, hx, hl⟩ := hl l hr
      obtain ⟨x', hx', hl', -⟩ := hback c x hx
      exact ⟨c, x', hc, hx', hl'.trans hl⟩
  busy a r l hr := by
    rw [hasync] at hr
    rw [hbusy]
    exact h.busy a r l hr
  direct t c n a r hm hr := by
    rw [hasync] at hr
    exact hdirect t c n a r hm hr

theorem direct_threadHandler {s : State} (h : Direct s) {c : CallId} {x : SyncCall} {t : ThreadId}
    (hx : s.syncCalls c = some x) (hnew : x.startedAt = none) : Direct (threadHandler s c x t) := by
  refine h.stacks rfl rfl (fun d y' hy' => ?_) (fun d y hy => ?_) fun u d n a r hm hr hd => ?_
  · rw [syncCalls_threadHandler] at hy'
    split at hy'
    · rename_i hdc
      cases hy'
      exact ⟨x, hdc ▸ hx, rfl⟩
    · exact ⟨y', hy', rfl⟩
  · rw [syncCalls_threadHandler]
    split
    · rename_i hdc
      rw [hdc, hx] at hy
      cases hy
      exact ⟨_, rfl, rfl, fun _ => nofun⟩
    · exact ⟨y, hy, rfl, id⟩
  · have hne : d ≠ c := by
      rintro rfl
      obtain ⟨y, hy, hat⟩ := (h.known a r hr).1 d hd
      rw [hx] at hy
      cases hy
      exact hat hnew
    rw [threads_threadHandler] at hm
    split at hm
    · rename_i hu
      subst hu
      rcases List.mem_cons.1 hm with heq | hm
      · cases heq
        exact absurd rfl hne
      · exact (h.direct u d n a r hm hr hd).imp (fun hb => hb.push (by rw [threads_threadHandler, if_pos rfl])) id
    · rename_i hu
      exact (h.direct u d n a r hm hr hd).imp (fun hb => hb.congr (by rw [threads_threadHandler, if_neg hu])) id

/-- The innermost frame of the thread is left. -/
theorem direct_pop {s : State} (h : Direct s) {t : ThreadId} {f : Frame} {rest : List Frame}
    (hstack : (s.threads t).stack = f :: rest) (hover : ∀ a r, f = .call a → s.asyncCalls a = some r → r.Over) :
    Direct (s.setThread t { s.threads t with stack := rest }) := by
  refine h.stacks rfl rfl (fun c x hx => ⟨x, hx, rfl⟩) (fun c x hx => ⟨x, hx, rfl, id⟩) fun u c n a r hm hr hc => ?_
  rw [State.threads_setThread] at hm
  split at hm
  · rename_i hu
    subst hu
    have hpop : ((s.setThread u { s.threads u with stack := rest }).threads u).stack = rest := by
      rw [State.threads_setThread, if_pos rfl]
    rcases h.direct u c n a r (by rw [hstack]; exact List.mem_cons_of_mem _ hm) hr hc with hb | ho
    · by_cases hf : f = .call a
      · exact Or.inr (hover a r hf hr)
      · exact Or.inl (hb.pop (by rw [hstack, hpop]) hf)
    · exact Or.inr ho
  · rename_i hu
    exact (h.direct u c n a r hm hr hc).imp (fun hb => hb.congr (by rw [State.threads_setThread, if_neg hu])) id

/-- The frame on top of the stack of a thread whose thread-locals speak of `c`, if `c` is on a stack at all. -/
theorem Linked.top {s : State} (h : Linked s) {t u : ThreadId} {c : CallId} {n : Nat} {tl : ThreadLocal}
    (hm : .handler c n ∈ (s.threads u).stack) (htl : (s.threads t).threadlocal = some tl) (hc : tl.taskContext = c)
    (htop : ∀ b rest, (s.threads t).stack ≠ .call b :: rest) :
    u = t ∧ ∃ rest, (s.threads t).stack = .handler c n :: rest := by
  obtain ⟨x, hx, hat⟩ := h.frame u c n hm
  obtain ⟨-, y, hy, hat', -⟩ := h.only t tl htl
  rw [hc, hx] at hy
  cases hy
  have hut : u = t ∧ n = (s.threads t).started := by
    rw [hat] at hat'
    cases hat'
    exact ⟨rfl, rfl⟩
  obtain ⟨rfl, hn⟩ := hut
  refine ⟨rfl, ?_⟩
  have hord := h.ordered u
  cases hs : (s.threads u).stack with
  | nil => rw [hs] at hm; cases hm
  | cons f rest =>
    rw [hs] at hm hord
    cases f with
    | call b => exact absurd hs (htop b rest)
    | handler d m =>
      rcases List.mem_cons.1 hm with heq | hm
      · cases heq
        exact ⟨rest, rfl⟩
      · -- a function further out was started earlier, but none was started after `c`
        have hlt := hord.1 c _ hm
        obtain ⟨z, hz, hatz⟩ := h.frame u d m (by rw [hs]; exact List.mem_cons_self ..)
        have hle := (h.latest d z u m hz hatz).1
        omega

theorem mainEventLoop_eq_some {s : State} {t : ThreadId} {f : Bool} {l : LoopId} (h : mainEventLoop s t f = some l) :
    ∃ tl, (s.threads t).threadlocal = some tl ∧ tl.mainEventLoop = l := by
  unfold mainEventLoop at h
  split at h
  · cases h
  · split at h
    · split at h
      · cases h
        exact ⟨_, ‹_›, rfl⟩
      · cases h
    · cases h

theorem acceptedBy_eq_some {s : State} {o : Option LoopId} {l : LoopId} (h : acceptedBy s o = some l) :
    o = some l ∧ s.isOpen l = true := by
  unfold acceptedBy at h
  split at h
  · split at h <;> cases h
    exact ⟨rfl, ‹_›⟩
  · cases h

/-- A new call reads the list of the function that makes it, or of one that is over. -/
theorem direct_asyncCall {s : State} (h : Direct s) (hl : Linked s) {a : TaskId} {t : ThreadId} {f : Bool}
    (htop : ∀ b rest, (s.threads t).stack ≠ .call b :: rest) (hnew : s.asyncCalls a = none) :
    Direct (asyncCall s a t f) := by
  have hthreads : ∀ u, ((asyncCall s a t f).threads u).stack =
      if u = t then .call a :: (s.threads t).stack else (s.threads u).stack := by
    intro u
    change ((s.setThread t _).threads u).stack = _
    rw [State.threads_setThread]
    split <;> rfl
  have hasync : ∀ b, (asyncCall s a t f).asyncCalls b =
      if b = a then some { mainEventLoop := mainEventLoop s t f,
                           taskContext := (s.threads t).threadlocal.map ThreadLocal.taskContext,
                           ranOn := acceptedBy s (mainEventLoop s t f) }
      else s.asyncCalls b := fun b => State.asyncCalls_setAsync _ a b _
  refine ⟨fun c x b hx => ?_, h.nodup, fun b r hr => ?_, fun b r l hr hp => ?_, fun u c n b r hm hr hc => ?_⟩
  · rw [h.listed c x b hx, hasync]
    split
    · rename_i hb
      rw [hb, hnew]
      refine ⟨nofun, ?_⟩
      rintro ⟨r, hr, -, hp⟩
      cases hr
      rcases hp with hp | hp <;> cases hp
    · exact Iff.rfl
  · rw [hasync] at hr
    split at hr
    · cases hr
      refine ⟨fun c hc => ?_, fun l hr => ?_⟩
      · obtain ⟨tl, htl, rfl⟩ := Option.map_eq_some_iff.1 hc
        obtain ⟨-, x, hx, hat, -⟩ := hl.only t tl htl
        exact ⟨x, hx, by rw [hat]; nofun⟩
      · obtain ⟨tl, htl, rfl⟩ := mainEventLoop_eq_some (acceptedBy_eq_some hr).1
        obtain ⟨-, x, hx, -, hloop⟩ := hl.only t tl htl
        exact ⟨tl.taskContext, x, by rw [htl]; rfl, hx, hloop⟩
    · exact h.known b r hr
  · rw [hasync] at hr
    split at hr
    · cases hr
      cases hp
    · exact h.busy b r l hr hp
  · rw [hthreads] at hm
    rw [hasync] at hr
    have hm' : .handler c n ∈ (s.threads u).stack := by
      split at hm
      · rename_i hu
        rcases List.mem_cons.1 hm with heq | hm
        · cases heq
        · rw [hu]; exact hm
      · exact hm
    split at hr
    · rename_i hb
      cases hr
      obtain ⟨tl, htl, rfl⟩ := Option.map_eq_some_iff.1 hc
      obtain ⟨rfl, rest, hrest⟩ := hl.top hm' htl rfl htop
      exact Or.inl ⟨[], n, rest, by rw [hthreads, if_pos rfl, hrest, hb]; rfl⟩
    · refine (h.direct u c n b r hm' hr hc).imp (fun hb => ?_) id
      by_cases hu : u = t
      · exact hb.push (by rw [hthreads, if_pos hu, hu])
      · exact hb.congr (by rw [hthreads, if_neg hu])

/-- The phase in which a task is in its list. -/
def Phase.inList : Phase → Prop
  | .registered | .resolved => True
  | _ => False

theorem Phase.inList_iff {p : Phase} : p.inList ↔ p = .registered ∨ p = .resolved := by
  cases p <;> simp [Phase.inList]

/-- A step of the task `a`: its phase, its list and its loop. -/
theorem Direct.task {s s' : State} (h : Direct s) {a : TaskId} {r : AsyncCall} (hr : s.asyncCalls a = some r)
    (r' : AsyncCall) (f : List TaskId → List TaskId) (b' : Option TaskId) (hthreads : s'.threads = s.threads)
    (hctx : r'.taskContext = r.taskContext) (hran : r'.ranOn = r.ranOn)
    (hasync : ∀ b, s'.asyncCalls b = if b = a then some r' else s.asyncCalls b)
    (hsync : ∀ c, s'.syncCalls c =
      (s.syncCalls c).map fun x => if r.taskContext = some c then { x with taskContext := f x.taskContext } else x)
    (hlist : ∀ c x, r.taskContext = some c → s.syncCalls c = some x → (f x.taskContext).Nodup ∧
      ∀ b, b ∈ f x.taskContext ↔ if b = a then r'.phase.inList else b ∈ x.taskContext)
    (hbusy : ∀ l, s'.busy l = if r.ranOn = some l then b' else s.busy l)
    (hmine : r'.phase = .resolved → b' = some a)
    (hother : ∀ l b, r.ranOn = some l → s.busy l = some b → b = a) (hover : r.Over → r'.Over) : Direct s' where
  listed c x' b hx' := by
    rw [hsync] at hx'
    obtain ⟨x, hx, rfl⟩ := Option.map_eq_some_iff.1 hx'
    have hold := h.listed c x b hx
    rw [hasync]
    by_cases hb : b = a
    · rw [if_pos hb]
      simp only [Option.some.injEq, exists_eq_left', hctx, ← Phase.inList_iff]
      split
      · rename_i hc
        rw [(hlist c x hc hx).2 b, if_pos hb]
        exact ⟨fun hp => ⟨hc, hp⟩, And.right⟩
      · rename_i hc
        rw [hold, hb, hr]
        simp [hc]
    · rw [if_neg hb]
      split
      · rename_i hc
        rw [(hlist c x hc hx).2 b, if_neg hb]
        exact hold
      · exact hold
  nodup c x' hx' := by
    rw [hsync] at hx'
    obtain ⟨x, hx, rfl⟩ := Option.map_eq_some_iff.1 hx'
    split
    · exact (hlist c x ‹_› hx).1
    · exact h.nodup c x hx
  known b rb hb := by
    have hknown : (∀ c, rb.taskContext = some c → ∃ x, s.syncCalls c = some x ∧ x.startedAt ≠ none) ∧
        ∀ l, rb.ranOn = some l → ∃ c x, rb.taskContext = some c ∧ s.syncCalls c = some x ∧ x.loop = l := by
      rw [hasync] at hb
      split at hb
      · cases hb
        rw [hctx, hran]
        exact h.known a r hr
      · exact h.known b rb hb
    refine ⟨fun c hc => ?_, fun l hl => ?_⟩
    · obtain ⟨x, hx, hat⟩ := hknown.1 c hc
      refine ⟨_, by rw [hsync, hx]; rfl, ?_⟩
      split <;> exact hat
    · obtain ⟨c, x, hc, hx, hloop⟩ := hknown.2 l hl
      refine ⟨c, _, hc, by rw [hsync, hx]; rfl, ?_⟩
      split <;> exact hloop
  busy b rb l hb hp hl := by
    rw [hasync] at hb
    rw [hbusy]
    split at hb
    · rename_i hba
      cases hb
      rw [if_pos (hran ▸ hl), hmine hp, hba]
    · rename_i hba
      have hold := h.busy b rb l hb hp hl
      split
      · exact absurd (hother l b ‹_› hold) hba
      · exact hold
  direct t c n b rb hm hb hc := by
    rw [hthreads] at hm
    rw [hasync] at hb
    have hcongr : BlockedIn s t c b → BlockedIn s' t c b := fun hbl => hbl.congr (by rw [hthreads])
    split at hb
    · rename_i hba
      cases hb
      rw [hba] at hcongr ⊢
      exact (h.direct t c n a r hm hr (hctx ▸ hc)).imp hcongr hover
    · exact (h.direct t c n b rb hm hb hc).imp hcongr id

theorem not_over_of_phase {r : AsyncCall} (h : r.phase = .scheduled ∨ r.phase = .registered) : ¬ r.Over := by
  rintro (ho | ⟨ho, -⟩) <;> rcases h with h | h <;> rw [h] at ho <;> cases ho

theorem direct_register {s : State} (h : Direct s) {a : TaskId} {r : AsyncCall} (hr : s.asyncCalls a = some r)
    (hphase : r.phase = .scheduled) (hfree : s.free r.ranOn = true) :
    Direct ((s.onList r.taskContext (· ++ [a])).setAsync a { r with phase := .registered }) := by
  rw [State.free_eq_true] at hfree
  refine h.task hr { r with phase := .registered } (· ++ [a]) none (by simp) rfl rfl (fun b => by simp)
    (fun c => State.syncCalls_onList s _ _ c)
    (fun c x hc hx => ?_) (fun l => ?_) (fun hp => by cases hp) (fun l b hl hb => ?_)
    fun ho => absurd ho (not_over_of_phase (Or.inl hphase))
  · -- a scheduled task is in no list
    have hnot : a ∉ x.taskContext := by
      rw [h.listed c x a hx, hr]
      rintro ⟨r', hr', -, hp⟩
      cases hr'
      rw [hphase] at hp
      rcases hp with hp | hp <;> cases hp
    refine ⟨List.nodup_append.2 ⟨h.nodup c x hx, List.nodup_singleton a, fun b hb d hd => ?_⟩, fun b => ?_⟩
    · rintro rfl
      exact hnot (List.mem_singleton.1 hd ▸ hb)
    · split
      · rename_i hba
        simp [hba, Phase.inList]
      · rename_i hba
        simp [hba]
  · simp only [State.busy_setAsync, State.busy_onList]
    split
    · exact hfree l ‹_›
    · rfl
  · rw [hfree l hl] at hb
    cases hb

theorem direct_resolve {s : State} (h : Direct s) {a : TaskId} {r : AsyncCall} (hr : s.asyncCalls a = some r)
    (hphase : r.phase = .registered) (hfree : s.free r.ranOn = true) :
    Direct ((s.setBusy r.ranOn (some a)).setAsync a { r with phase := .resolved }) := by
  rw [State.free_eq_true] at hfree
  refine h.task hr { r with phase := .resolved } id (some a) (by simp) rfl rfl (fun b => by simp) (fun c => ?_)
    (fun c x hc hx => ⟨h.nodup c x hx, fun b => ?_⟩)
    (fun l => by simp [State.busy_setBusy]) (fun _ => rfl) (fun l b hl hb => ?_)
    fun ho => absurd ho (not_over_of_phase (Or.inr hphase))
  · cases hc : s.syncCalls c <;> simp [hc]
  · split
    · rename_i hba
      rw [id_eq, h.listed c x b hx, hba]
      exact ⟨fun _ => trivial, fun _ => ⟨r, hr, hc, Or.inl hphase⟩⟩
    · exact Iff.rfl
  · rw [hfree l hl] at hb
    cases hb

theorem direct_remove {s : State} (h : Direct s) {a : TaskId} {r : AsyncCall} (hr : s.asyncCalls a = some r)
    (hphase : r.phase = .resolved) :
    Direct (((s.onList r.taskContext (·.erase a)).setBusy r.ranOn none).setAsync a { r with phase := .removed }) := by
  refine h.task hr { r with phase := .removed } (·.erase a) none (by simp) rfl rfl (fun b => by simp) (fun c => ?_)
    (fun c x hc hx => ⟨(h.nodup c x hx).erase a, fun b => ?_⟩) (fun l => by simp [State.busy_setBusy])
    (fun hp => by cases hp) (fun l b hl hb => ?_) fun _ => Or.inl rfl
  · simp only [State.syncCalls_setAsync, State.syncCalls_setBusy]
    exact State.syncCalls_onList s _ _ c
  · rw [(h.nodup c x hx).mem_erase_iff]
    split
    · rename_i hba
      simp [hba, Phase.inList]
    · rename_i hba
      simp [hba]
  · rw [h.busy a r l hr hphase hl] at hb
    exact (Option.some.inj hb).symm

theorem direct_cancel {s : State} (h : Direct s) {a : TaskId} {r : AsyncCall} (hr : s.asyncCalls a = some r) :
    Direct (s.setAsync a { r with cancelRequested := true }) := by
  have hasync : ∀ b r', (s.setAsync a { r with cancelRequested := true }).asyncCalls b = some r' →
      ∃ q, s.asyncCalls b = some q ∧ r'.taskContext = q.taskContext ∧ r'.ranOn = q.ranOn ∧ r'.phase = q.phase := by
    intro b r' hb
    rw [State.asyncCalls_setAsync] at hb
    split at hb
    · rename_i hba
      cases hb
      exact ⟨r, hba ▸ hr, rfl, rfl, rfl⟩
    · exact ⟨r', hb, rfl, rfl, rfl⟩
  refine ⟨fun c x b hx => ?_, h.nodup, fun b r' hb => ?_, fun b r' l hb hp hl => ?_, fun t c n b r' hm hb hc => ?_⟩
  · rw [h.listed c x b hx]
    constructor
    · rintro ⟨q, hq, hc, hp⟩
      by_cases hba : b = a
      · rw [hba, hr] at hq
        cases hq
        exact ⟨{ r with cancelRequested := true }, by rw [State.asyncCalls_setAsync, if_pos hba], hc, hp⟩
      · exact ⟨q, by rw [State.asyncCalls_setAsync, if_neg hba]; exact hq, hc, hp⟩
    · rintro ⟨r', hb, hc, hp⟩
      obtain ⟨q, hq, hctx, -, hphase⟩ := hasync b r' hb
      exact ⟨q, hq, hctx ▸ hc, hphase ▸ hp⟩
  · obtain ⟨q, hq, hctx, hran, -⟩ := hasync b r' hb
    rw [hctx, hran]
    exact h.known b q hq
  · obtain ⟨q, hq, -, hran, hphase⟩ := hasync b r' hb
    exact h.busy b q l hq (hphase ▸ hp) (hran ▸ hl)
  · obtain ⟨q, hq, hctx, hran, hphase⟩ := hasync b r' hb
    unfold AsyncCall.Over
    rw [hphase, hran]
    exact h.direct t c n b q hm hq (hctx ▸ hc)

theorem over_of_canLeave {r : AsyncCall} (h : r.canLeave = true) : r.Over := by
  unfold AsyncCall.canLeave at h
  split at h
  · exact Or.inl ‹_›
  · exact Or.inr ⟨‹_›, h⟩
  · cases h

theorem direct_step {s s' : State} {a : Action} (hl : Linked s) (h : Direct s) (hstep : machine.step s a = some s') :
    Direct s' := by
  have hto : StepTo s a s' := stepTo_of_step hstep
  cases hto with
  | openLoop => exact ⟨h.listed, h.nodup, h.known, h.busy, h.direct⟩
  | closeLoop => exact ⟨h.listed, h.nodup, h.known, h.busy, h.direct⟩
  | @submit c l hnone =>
    have hold : ∀ d x, s.syncCalls d = some x → (s.setSync c { loop := l }).syncCalls d = some x := by
      intro d x hx
      rw [State.syncCalls_setSync, if_neg (by rintro rfl; rw [hnone] at hx; cases hx)]
      exact hx
    refine ⟨fun d x b hx => ?_, fun d x hx => ?_, fun b r hr => ⟨fun d hd => ?_, fun l' hl' => ?_⟩, h.busy, h.direct⟩
    · rw [State.syncCalls_setSync] at hx
      split at hx
      · rename_i hd
        cases hx
        refine ⟨nofun, ?_⟩
        rintro ⟨r, hr, hc, -⟩
        obtain ⟨y, hy, -⟩ := (h.known b r hr).1 d hc
        rw [hd, hnone] at hy
        cases hy
      · exact h.listed d x b hx
    · rw [State.syncCalls_setSync] at hx
      split at hx
      · cases hx
        exact List.nodup_nil
      · exact h.nodup d x hx
    · obtain ⟨x, hx, hat⟩ := (h.known b r hr).1 d hd
      exact ⟨x, hold d x hx, hat⟩
    · obtain ⟨d, x, hd, hx, hloop⟩ := (h.known b r hr).2 l' hl'
      exact ⟨d, x, hd, hold d x hx, hloop⟩
  | startHandler hx hnew => exact direct_threadHandler h hx hnew
  | endHandler hstack => exact direct_pop h hstack fun a r hf _ => by cases hf
  | callAsync htop hnew => exact direct_asyncCall h hl htop hnew
  | register hr hphase hfree => exact direct_register h hr hphase hfree
  | resolve hr hphase hfree => exact direct_resolve h hr hphase hfree
  | remove hr hphase => exact direct_remove h hr hphase
  | @leave t a rest r hstack hr hleave =>
    refine direct_pop h hstack fun b q hf hq => ?_
    cases hf
    rw [hr] at hq
    cases hq
    exact over_of_canLeave hleave
  | cancelNone => exact h
  | cancel _ _ _ hr => exact direct_cancel h hr

/-! ### Runs -/

/-- One function is blocked in one call at a time. -/
theorem call_above_unique {c : CallId} {n : Nat} {a b : TaskId} {post post' : List Frame} :
    ∀ {l pre pre' : List Frame}, Ordered l → l = pre ++ .call a :: .handler c n :: post →
      l = pre' ++ .call b :: .handler c n :: post' → a = b
  | l, [], [], _, h, h' => by
    rw [h] at h'
    cases h'
    rfl
  | l, f :: pre, f' :: pre', hord, h, h' => by
    subst h
    obtain ⟨hf, ht⟩ := List.cons.inj h'
    have htail : Ordered (pre ++ .call a :: .handler c n :: post) := by
      cases f with
      | handler d m => exact hord.2
      | call d => exact hord
    exact call_above_unique htail rfl ht
  | l, [], f' :: pre', hord, h, h' => by
    subst h
    have hmem : .handler c n ∈ post := by
      obtain ⟨-, ht⟩ := List.cons.inj h'
      cases pre' with
      | nil => cases ht
      | cons g pre' =>
        rw [(List.cons.inj ht).2]
        simp
    exact absurd (hord.1 c n hmem) (Nat.lt_irrefl n)
  | l, f :: pre, [], hord, h, h' => by
    subst h'
    have hmem : .handler c n ∈ post' := by
      obtain ⟨-, ht⟩ := List.cons.inj h
      cases pre with
      | nil => cases ht
      | cons g pre =>
        rw [(List.cons.inj ht).2]
        simp
    exact absurd (hord.1 c n hmem) (Nat.lt_irrefl n)

/-- The call `a`, just made in `s'`, uses the loop of the `SyncToAsync` call `c` as its parent loop (its task goes
there if it is open) and registers its task in the list of `c`. -/
def Attached (s s' : State) (a : TaskId) (c : CallId) (x : SyncCall) : Prop :=
  ∃ r, s'.asyncCalls a = some r ∧ r.mainEventLoop = some x.loop ∧ r.taskContext = some c ∧
    (s.isOpen x.loop = true → r.ranOn = some x.loop)

theorem attached_iff {s s' : State} (h : Linked s) {a : TaskId} {t : ThreadId} {c : CallId} {n : Nat}
    {rest : List Frame} {x : SyncCall} (hstep : step s (.callAsync a t false) = some s')
    (hstack : (s.threads t).stack = .handler c n :: rest) (hx : s.syncCalls c = some x) :
    Attached s s' a c x ↔ n = (s.threads t).started := by
  obtain ⟨y, hy, hat⟩ := h.frame t c n (by rw [hstack]; exact List.mem_cons_self ..)
  rw [hx] at hy
  cases hy
  have hto : StepTo s (.callAsync a t false) s' := stepTo_of_step hstep
  cases hto
  have hasync : (asyncCall s a t false).asyncCalls a =
      some { mainEventLoop := mainEventLoop s t false,
             taskContext := (s.threads t).threadlocal.map ThreadLocal.taskContext,
             ranOn := acceptedBy s (mainEventLoop s t false) } := by
    rw [asyncCall, State.asyncCalls_setAsync, if_pos rfl]
  constructor
  · rintro ⟨r, hr, -, hc, -⟩
    rw [hasync] at hr
    cases hr
    obtain ⟨tl, htl, rfl⟩ := Option.map_eq_some_iff.1 hc
    obtain ⟨-, z, hz, hatz, -⟩ := h.only t tl htl
    rw [hx] at hz
    cases hz
    rw [hat] at hatz
    cases hatz
    rfl
  · intro hn
    have htl := (h.latest c x t n hx hat).2 hn
    have hmain : mainEventLoop s t false = some x.loop := by
      simp [mainEventLoop, htl]
    refine ⟨_, hasync, hmain, by rw [htl]; rfl, fun hopen => ?_⟩
    rw [hmain]
    simp [acceptedBy, hopen]

/-- A cancellation of `c` reaches the task its function is blocked in, if that task has read the list of `c`. -/
theorem cancel_reaches {s s' : State} (hl : Linked s) (h : Direct s) {a : TaskId} {t : ThreadId} {c : CallId}
    {r : AsyncCall} (hblocked : BlockedIn s t c a) (hr : s.asyncCalls a = some r) (hc : r.taskContext = some c)
    (hphase : r.phase = .registered) (hstep : step s (.cancel c) = some s') :
    ∃ r', s'.asyncCalls a = some r' ∧ r'.cancelRequested = true := by
  obtain ⟨pre, n, post, hstack⟩ := hblocked
  have hmem : .handler c n ∈ (s.threads t).stack := by rw [hstack]; simp
  obtain ⟨x, hx, hat⟩ := hl.frame t c n hmem
  have hlisted : a ∈ x.taskContext := (h.listed c x a hx).2 ⟨r, hr, hc, Or.inl hphase⟩
  have hto : StepTo s (.cancel c) s' := stepTo_of_step hstep
  cases hto with
  | cancelNone hy hnil =>
    rw [hx] at hy
    cases hy
    rw [hnil] at hlisted
    cases hlisted
  | @cancel _ y b l q hy hfree hcons hq =>
    rw [hx] at hy
    cases hy
    -- the first task of the list has read it, and it is not over: the loop would be busy with it
    obtain ⟨q', hq', hqc, hqp⟩ := (h.listed c x b hx).1 (by rw [hcons]; exact List.mem_cons_self ..)
    rw [hq] at hq'
    cases hq'
    have hab : a = b := by
      rcases h.direct t c n b q hmem hq hqc with ⟨pre', n', post', hstack'⟩ | ho | ⟨hp, hran⟩
      · obtain ⟨z, hz, hatz⟩ := hl.frame t c n' (by rw [hstack']; simp)
        rw [hx] at hz
        cases hz
        rw [hat] at hatz
        cases hatz
        exact call_above_unique (hl.ordered t) hstack hstack'
      · rw [ho] at hqp
        rcases hqp with hqp | hqp <;> cases hqp
      · obtain ⟨l, hran⟩ := Option.isSome_iff_exists.1 hran
        obtain ⟨d, z, hd, hz, hloop⟩ := (h.known b q hq).2 l hran
        rw [hqc] at hd
        cases hd
        rw [hx] at hz
        cases hz
        have hbusy := h.busy b q l hq hp hran
        rw [State.free_eq_true] at hfree
        rw [hfree l (by rw [hloop])] at hbusy
        cases hbusy
    exact ⟨{ q with cancelRequested := true }, by rw [State.asyncCalls_setAsync, if_pos hab], rfl⟩

/-- **To which `SyncToAsync` call a call attaches.**  In every state reached: a call that the body of a function
makes, without `force_new_loop`, attaches to the `SyncToAsync` call of that function if and only if the thread has
started no other item since.  And while the function is blocked in a call whose task has read its list and is in
progress, a cancellation of the `SyncToAsync` call cancels that task. -/
theorem attaches_iff_latest {pid : Nat} {s : State} {as : List Action}
    (hrun : machine.run (State.init pid) as = some s) :
    (∀ a t c n rest x s', step s (.callAsync a t false) = some s' → (s.threads t).stack = .handler c n :: rest →
      s.syncCalls c = some x → (Attached s s' a c x ↔ n = (s.threads t).started)) ∧
    (∀ a t c r s', BlockedIn s t c a → s.asyncCalls a = some r → r.taskContext = some c → r.phase = .registered →
      step s (.cancel c) = some s' → ∃ r', s'.asyncCalls a = some r' ∧ r'.cancelRequested = true) := by
  have h : Linked s ∧ Direct s := machine.run_invariant (I := fun s => Linked s ∧ Direct s)
    (fun _ _ _ h hs => ⟨linked_step h.1 hs, direct_step h.1 h.2 hs⟩) ⟨linked_init pid, direct_init pid⟩ hrun
  exact ⟨fun a t c n rest x s' hs hst hx => attached_iff h.1 hs hst hx,
    fun a t c r s' hb hr hc hp hs => cancel_reaches h.1 h.2 hb hr hc hp hs⟩

/-! ### A function that calls twice -/

/-- The function of call 0 runs on thread 1 and calls 0. -/
def firstCall : List Action :=
  [.openLoop 0, .submit 0 0, .startHandler 0 1, .callAsync 0 1 false, .register 0]

/-- The first call awaits a `SyncToAsync` call of its own, which is run on the same thread, and returns. -/
def nestedItem : List Action :=
  [.submit 1 0, .startHandler 1 1, .endHandler 1, .resolve 0, .remove 0, .leave 1]

theorem attaches_iff_latest_firstCall : ∃ s s', machine.run (State.init 1) firstCall = some s ∧
    step s (.cancel 0) = some s' ∧ ∃ r', s'.asyncCalls 0 = some r' ∧ r'.cancelRequested = true := by
  refine ⟨_, _, rfl, rfl, ?_⟩
  exact (@attaches_iff_latest 1 _ firstCall rfl).2 0 1 0 _ _ ⟨[], 1, [], rfl⟩ rfl rfl rfl rfl

/-- **A call that attaches elsewhere**: after the nested item, the second call of the function registers its task in
the list of that item. -/
theorem not_attached : ¬ ∀ (s s' : State) (as : List Action) (a t c n : Nat) (rest : List Frame) (x : SyncCall),
    machine.run (State.init 1) as = some s → step s (.callAsync a t false) = some s' →
    (s.threads t).stack = .handler c n :: rest → s.syncCalls c = some x → Attached s s' a c x := by
  intro h
  obtain ⟨r, hr, -, hc, -⟩ := h _ _ (firstCall ++ nestedItem) 1 1 0 1 [] _ rfl rfl rfl rfl
  cases hr
  cases hc

end Asgiref.SyncToAsync.ThreadHandler
