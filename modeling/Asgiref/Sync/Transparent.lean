import Asgiref.Lib.Diverges
import Asgiref.Sync.Transparency

/-!
# When wrapping is transparent for context state

* `Agrees` — the wrapped program returns, with the trace, the result and the final state of the direct one;
* `Fresh` — no call of the direct program ends with an exception that a comparison raises;
* `exec_parts` — where a call is not faithful, the wrapped program waits for ever or its trace parts from the direct
  one, by induction on the program;
* `transparent_iff` — a program agrees if all its calls are faithful, and only then.
-/

namespace Asgiref.Sync.Transparency

open Asgiref.Python Asgiref.Lib Asgiref.Local

section

variable {U : Type} (vars : UserVars U) (passage : Passage Exn)

/-- The wrapped program, started in `c` on the thread `t`, returns.  All it reads, what every body finds and what every
call ends with, its result and the state it leaves are those of the direct program. -/
def Agrees {m : Mode} (p : Prog U m) (t : ThreadId) (c : Context U) : Prop :=
  ∃ o, exec vars passage p t c = some o ∧ o.events = (direct vars passage t p c).events ∧
    o.result = (direct vars passage t p c).result ∧ view t o.ctx = view t (direct vars passage t p c).ctx

/-- No call of the trace ends with an exception that a comparison raises. -/
def Fresh (events : List (Event U)) : Prop :=
  ∀ e v, .left (.error e) v ∈ events → ∀ u w e', vars.ne u w = .error e' → e'.isLookupError = false →
    e ≠ e' ∧ e ≠ passage.coroutine e'

/-- The wrapped program waits for ever, or its trace parts from the direct one. -/
def Parts (o : Option (Outcome U)) (o' : Outcome U) : Prop := ∀ w, o = some w → Diverges w.events o'.events

/-- From contexts that show the same, where `C` does not hold of the direct one, `run` parts from `run'`. -/
def Deviates (m : Mode) (t₀ : ThreadId) (C : Context U → Prop) (run : ThreadId → Context U → Option (Outcome U))
    (run' : Context U → Outcome U) : Prop :=
  ∀ t c d, Sim t c t₀ d → NotBlocked m t c → ¬ C d → Fresh vars passage (run' d).events → Parts (run t c) (run' d)

/-- The same of a call, with what it ends with in its trace. -/
def CallDeviates (m : Mode) (t₀ : ThreadId) (C : Context U → Prop)
    (call : ThreadId → Context U → Option (Outcome U)) (call' : Context U → Outcome U) : Prop :=
  ∀ t c d, Sim t c t₀ d → NotBlocked m t c → ¬ C d → Fresh vars passage ((call' d).call t₀) →
    ∀ o, call t c = some o → Diverges (o.call t) ((call' d).call t₀)

end

section

variable {U : Type} {vars : UserVars U} {passage : Passage Exn}

theorem Fresh.of_subset {l l' : List (Event U)} (h : Fresh vars passage l') (hsub : l ⊆ l') : Fresh vars passage l :=
  fun e v hmem => h e v (hsub hmem)

/-- What a call of the direct program ends with is not what `_restore_context` raises. -/
theorem Fresh.ne {l : List (Event U)} (h : Fresh vars passage l) {r : Result U} {v : View U} (hmem : .left r v ∈ l)
    {t : ThreadId} {context cur : Context U} {e : Exn} (he : (restoreContext vars t context cur).2 = some e) :
    r ≠ .error e ∧ r ≠ .error (passage.coroutine e) := by
  obtain ⟨w, u, hne, hl⟩ := exists_of_restoreContext_snd_eq_some he
  constructor
  · rintro rfl
    exact (h _ v hmem w u e hne hl).1 rfl
  · rintro rfl
    exact (h _ v hmem w u e hne hl).2 rfl

theorem Parts.after {o : Option (Outcome U)} {o' : Outcome U} (h : Parts o o') (events : List (Event U)) :
    Parts (o.map (Outcome.after events)) (o'.after events) := by
  intro w hw
  obtain ⟨o₁, ho₁, rfl⟩ := Option.map_eq_some_iff.1 hw
  exact (h o₁ ho₁).after events

/-- A variable that is not the same is seen. -/
theorem view_ne {t t₀ : ThreadId} {c d : Context U} {x : Nat} (h : c.lookup (.user x) ≠ d.lookup (.user x)) :
    view t c ≠ view t₀ d := fun heq => h (congrFun (congrArg View.vars heq) x)

theorem diverges_entered {t t₀ : ThreadId} {c d : Context U} (h : view t c ≠ view t₀ d) (l l' : List (Event U)) :
    Diverges (Event.entered (view t c) :: l) (.entered (view t₀ d) :: l') :=
  diverges_of_ne (fun heq => h (Event.entered.inj heq)) l l'

/-- The same trace up to the end of the call. -/
theorem diverges_left {l : List (Event U)} {r r' : Result U} {v v' : View U} (h : r ≠ r' ∨ v ≠ v') :
    Diverges (l ++ [.left r v]) (l ++ [.left r' v']) := by
  refine (diverges_of_ne (fun heq => ?_) [] []).after l
  obtain ⟨hr, hv⟩ := Event.left.inj heq
  exact h.elim (fun h => h hr) fun h => h hv

/-- A call that parts, or the rest of the body does. -/
theorem deviates_call {m : Mode} {t₀ : ThreadId} {C : Context U → Prop} {D : Result U → Context U → Prop}
    {call : ThreadId → Context U → Option (Outcome U)} {call' : Context U → Outcome U}
    {k : Result U → ThreadId → Context U → Option (Outcome U)} {k' : Result U → Context U → Outcome U}
    (hsim : Simulates m t₀ C call call') (hcall : CallDeviates vars passage m t₀ C call call')
    (hk : ∀ r, Deviates vars passage m t₀ (D r) (k r) (k' r)) :
    Deviates vars passage m t₀ (fun d => C d ∧ D (call' d).result (call' d).ctx)
      (fun t c => (call t c).bind fun o => (k o.result t o.ctx).map (Outcome.after (o.call t)))
      (fun d => (k' (call' d).result (call' d).ctx).after ((call' d).call t₀)) := by
  intro t c d hs hfree hnot hfresh w hw
  obtain ⟨o, ho, hw⟩ := Option.bind_eq_some_iff.1 hw
  by_cases hC : C d
  · obtain ⟨o', ho', hmatch⟩ := hsim t c d hs hfree hC
    cases ho.symm.trans ho'
    have hD : ¬ D (call' d).result (call' d).ctx := fun hD => hnot ⟨hC, hD⟩
    have hrest := hk o.result t o.ctx (call' d).ctx hmatch.sim hmatch.notBlocked (hmatch.result ▸ hD)
      (hmatch.result ▸ hfresh.of_subset (List.subset_append_right _ _))
    rw [hmatch.call, hmatch.result] at hw
    rw [hmatch.result] at hrest
    exact hrest.after _ w hw
  · obtain ⟨o₂, -, rfl⟩ := Option.map_eq_some_iff.1 hw
    exact (hcall t c d hs hfree hC (hfresh.of_subset (List.subset_append_left _ _)) o ho).append _ _

/-- A body that parts, after the event with what it sees. -/
theorem deviates_enter {m : Mode} {t₀ : ThreadId} {C : Context U → Prop}
    {body : ThreadId → Context U → Option (Outcome U)} {body' : Context U → Outcome U}
    (hbody : Deviates vars passage m t₀ C body body') :
    Deviates vars passage m t₀ C (enter body) (callFunction t₀ body') := by
  intro t c d hs hfree hC hfresh
  rw [enter, hs.view]
  exact (hbody t c d hs hfree hC (hfresh.of_subset (List.subset_append_right _ _))).after _

/-- What is restored of the user's variables, where comparisons do not tell objects apart: not all, or the view is
another one. -/
theorem view_ne_of_restored {t t' t₀ : ThreadId} {context cur c d : Context U} {x : Nat} {v : U}
    (hs : Sim t' context t₀ d) (hx : context.lookup (.user x) = some v)
    (hne : (restoreContext vars t context cur).1.lookup (.user x) ≠ some v)
    (hc : c.lookup (.user x) = (restoreContext vars t context cur).1.lookup (.user x)) : view t c ≠ view t₀ d := by
  refine view_ne (x := x) ?_
  rw [hc, ← hs.vars x, hx]
  exact hne

theorem handBack_of_none (o : Outcome U) {t : ThreadId} {cur : Context U} {leaves : Exn → Exn}
    {rest : Context U → Context U} (h : (restoreContext vars t o.ctx cur).2 = none) :
    o.handBack vars t cur leaves rest = { o with ctx := rest (restoreContext vars t o.ctx cur).1 } := by
  unfold Outcome.handBack
  rw [show restoreContext vars t o.ctx cur = (_, none) from Prod.ext rfl h]

theorem handBack_of_some (o : Outcome U) {t : ThreadId} {cur : Context U} {leaves : Exn → Exn}
    {rest : Context U → Context U} {e : Exn} (h : (restoreContext vars t o.ctx cur).2 = some e) :
    o.handBack vars t cur leaves rest = ⟨.error (leaves e), o.events, (restoreContext vars t o.ctx cur).1⟩ := by
  unfold Outcome.handBack
  rw [show restoreContext vars t o.ctx cur = (_, some e) from Prod.ext rfl h]

theorem events_handBack (o : Outcome U) (t : ThreadId) (cur : Context U) (leaves : Exn → Exn)
    (rest : Context U → Context U) : (o.handBack vars t cur leaves rest).events = o.events := by
  unfold Outcome.handBack
  split <;> rfl

/-- The `finally` block of a call, where the comparisons on the way back do not tell objects apart. -/
theorem diverges_handBack {m : Mode} {t t' t₀ : ThreadId} {c cur d : Context U} {o o' : Outcome U} {leaves : Exn → Exn}
    {rest : Context U → Context U} (hmatch : Matches m t' t₀ c o o') (hcur : ∀ x, cur.lookup (.user x) = d.lookup (.user x))
    (hrest : ∀ (c' : Context U) x, (rest c').lookup (.user x) = c'.lookup (.user x))
    (hleaves : ∀ e, leaves e = e ∨ leaves e = passage.coroutine e) (hout : ¬ TellsApart vars o'.ctx d)
    (hfresh : Fresh vars passage (o'.call t₀)) (r : Result U) :
    Diverges ((Outcome.handBack vars ⟨r, o.events, o.ctx⟩ t cur leaves rest).call t) (o'.call t₀) := by
  have hleft : Event.left o'.result (view t₀ o'.ctx) ∈ o'.call t₀ := List.mem_append_right _ (List.mem_singleton.2 rfl)
  have hnot : ¬ TellsApart vars o.ctx cur := fun h => hout ((tellsApart_congr hmatch.sim.vars hcur).1 h)
  unfold Outcome.call
  rw [events_handBack, hmatch.events]
  refine diverges_left ?_
  obtain ⟨e, he⟩ | ⟨hnone, x, v, hx, hne⟩ := misses_of_not_tellsApart hnot t
  · -- the exception of the block
    obtain ⟨hne, hne'⟩ := hfresh.ne hleft he
    rw [handBack_of_some ⟨r, o'.events, o.ctx⟩ he]
    obtain hl | hl := hleaves e
    · exact .inl fun heq => hne (by rw [← heq, hl])
    · exact .inl fun heq => hne' (by rw [← heq, hl])
  · -- or the variable that is not set
    rw [handBack_of_none ⟨r, o'.events, o.ctx⟩ hnone]
    exact .inr (view_ne_of_restored hmatch.sim hx hne (hrest _ x))

theorem callDeviates_asyncToSync {t₀ : ThreadId} {C : Context U → Prop} (h : ToLoop)
    {body : ThreadId → Context U → Option (Outcome U)} {body' : Context U → Outcome U}
    (hsim : Simulates .async t₀ C body body') (hbody : Deviates vars passage .async t₀ C body body') :
    CallDeviates vars passage .sync t₀
      (fun d => TellsApart vars d (h.base d) ∧ C d ∧ TellsApart vars (body' d).ctx d)
      (asyncToSync vars passage h body) (callCoroutine passage t₀ body') := by
  intro t c d hs _ hnot hfresh o ho
  have hcontext := hs.setCurrentExecutor (some h.executor)
  obtain ⟨o₁, hwrap, rfl⟩ := Option.map_eq_some_iff.1 ho
  by_cases hin : TellsApart vars d (h.base d)
  · obtain ⟨c₁, hin', hm₁⟩ := restoreContext_moved
      ((tellsApart_congr hcontext.vars (h.lookup_base hcontext.vars)).2 hin) h.thread (h.grows_base _)
    have hs₁ := hcontext.moved hm₁
    simp only [mainWrap, hin'] at hwrap
    obtain ⟨o₂, ho₂, rfl⟩ := Option.map_eq_some_iff.1 hwrap
    by_cases hC : C d
    · -- the way back
      obtain ⟨o₃, ho₃, hmatch⟩ := simulates_enter hsim h.thread c₁ d hs₁ (notBlocked_moved hm₁) hC
      cases ho₂.symm.trans ho₃
      have hmatch' : Matches .async h.thread t₀ c₁ { o₂ with result := passage.awaited o₂.result }
          (callCoroutine passage t₀ body' d) :=
        ⟨congrArg passage.awaited hmatch.result, hmatch.events, hmatch.sim, hmatch.grows, hmatch.notBlocked⟩
      exact diverges_handBack hmatch' hcontext.vars (fun c' x => Context.lookup_setattr_ne c' t _ _ (by simp))
        (fun e => .inl rfl) (fun hout => hnot ⟨hin, hC, hout⟩) hfresh _
    · -- the body
      have hparts := deviates_enter hbody h.thread c₁ d hs₁ (notBlocked_moved hm₁) hC
        (hfresh.of_subset (List.subset_append_left _ _)) o₂ ho₂
      unfold Outcome.call
      rw [events_handBack]
      exact hparts.append _ _
  · -- the way in
    have hnot' : ¬ TellsApart vars (c.setCurrentExecutor t (some h.executor))
        (h.base (c.setCurrentExecutor t (some h.executor))) :=
      fun hin' => hin ((tellsApart_congr hcontext.vars (h.lookup_base hcontext.vars)).1 hin')
    unfold Outcome.call
    rw [events_handBack]
    unfold mainWrap at hwrap
    obtain ⟨e, he⟩ | ⟨hnone, x, v, hx, hne⟩ := misses_of_not_tellsApart hnot' h.thread
    · rw [show restoreContext vars h.thread _ _ = (_, some e) from Prod.ext rfl he] at hwrap
      simp only [Option.ite_none_left_eq_some] at hwrap
      obtain ⟨-, hwrap⟩ := hwrap
      cases hwrap
      exact diverges_of_ne (by simp) _ _
    · rw [show restoreContext vars h.thread _ _ = (_, none) from Prod.ext rfl hnone] at hwrap
      obtain ⟨o₂, ho₂, rfl⟩ := Option.map_eq_some_iff.1 hwrap
      obtain ⟨o₃, -, rfl⟩ := Option.map_eq_some_iff.1 ho₂
      exact diverges_entered (view_ne_of_restored hcontext hx hne rfl) _ _

theorem callDeviates_syncToAsync {t₀ : ThreadId} {C : Context U → Prop} (h : ToWorker)
    {body : ThreadId → Context U → Option (Outcome U)} {body' : Context U → Outcome U}
    (hsim : Simulates .sync t₀ C body body') (hbody : Deviates vars passage .sync t₀ C body body') :
    CallDeviates vars passage .async t₀
      (fun d => TellsApart vars d d ∧ C d ∧ TellsApart vars (body' d).ctx d ∧
        passage.arrived (body' d).result = some (body' d).result)
      (syncToAsync vars passage h body) (callFunction t₀ body') := by
  intro t c d hs hfree hnot hfresh o ho
  obtain ⟨x, context, hchoice, hcontext, hgrows⟩ := exists_chooseExecutor hs hfree h.choice
  simp only [syncToAsync, hchoice] at ho
  obtain ⟨o₁, hchild, ho⟩ := Option.bind_eq_some_iff.1 ho
  obtain ⟨r, harrived, rfl⟩ := Option.map_eq_some_iff.1 ho
  unfold runChild at hchild
  by_cases hin : TellsApart vars d d
  · obtain ⟨c₁, hin', hm₁⟩ := restoreContext_moved ((tellsApart_congr hcontext.vars hcontext.vars).2 hin) h.thread
      (show Grows context context from fun x hx => hx)
    have hs₁ := hcontext.moved hm₁
    simp only [hin'] at hchild
    by_cases hC : C d
    · obtain ⟨o₂, ho₂, hmatch⟩ := simulates_enter hsim h.thread c₁ d hs₁ trivial hC
      cases hchild.symm.trans ho₂
      by_cases hout : TellsApart vars (body' d).ctx d
      · -- the exception does not arrive as it is
        have hne : r ≠ (body' d).result := by
          rintro rfl
          refine hnot ⟨hin, hC, hout, ?_⟩
          rw [show (body' d).result = o₁.result from hmatch.result.symm] at harrived ⊢
          exact harrived
        obtain ⟨c₂, hback, -⟩ := restoreContext_moved ((tellsApart_congr hmatch.sim.vars hcontext.vars).2 hout) t
          (hm₁.grows.trans hmatch.grows)
        have hnone : (restoreContext vars t o₁.ctx context).2 = none := by rw [hback]
        unfold Outcome.call
        rw [handBack_of_none ⟨r, o₁.events, o₁.ctx⟩ hnone, hmatch.events]
        exact diverges_left (.inl hne)
      · exact diverges_handBack hmatch hcontext.vars (fun c' x => Context.lookup_setDeadlock_ne c' _ (by simp))
          (fun e => .inr rfl) hout hfresh _
    · -- the body
      have hparts := deviates_enter hbody h.thread c₁ d hs₁ trivial hC
        (hfresh.of_subset (List.subset_append_left _ _)) o₁ hchild
      unfold Outcome.call
      rw [events_handBack]
      exact hparts.append _ _
  · -- the way in
    have hnot' : ¬ TellsApart vars context context :=
      fun hin' => hin ((tellsApart_congr hcontext.vars hcontext.vars).1 hin')
    unfold Outcome.call
    rw [events_handBack]
    obtain ⟨e, he⟩ | ⟨hnone, x, v, hx, hne⟩ := misses_of_not_tellsApart hnot' h.thread
    · rw [show restoreContext vars h.thread _ _ = (_, some e) from Prod.ext rfl he] at hchild
      cases hchild
      exact diverges_of_ne (by simp) _ _
    · rw [show restoreContext vars h.thread _ _ = (_, none) from Prod.ext rfl hnone] at hchild
      obtain ⟨o₂, -, rfl⟩ := Option.map_eq_some_iff.1 hchild
      exact diverges_entered (view_ne_of_restored hcontext hx hne rfl) _ _

/-- **Where a call is not faithful**, the wrapped program does not do what the direct one does. -/
theorem exec_parts {m : Mode} (p : Prog U m) (t₀ : ThreadId) :
    Deviates vars passage m t₀ (Faithful vars passage t₀ p) (exec vars passage p) (direct vars passage t₀ p) := by
  induction p with
  | ret v => exact fun t c d _ _ hnot => absurd trivial hnot
  | raise e => exact fun t c d _ _ hnot => absurd trivial hnot
  | getVar x fallback k ih =>
    intro t c d hs hfree hnot hfresh
    rw [exec, direct, hs.getVar]
    exact (ih _ t c d hs hfree hnot (hfresh.of_subset (List.subset_append_right _ _))).after _
  | setVar x v k ih =>
    intro t c d hs hfree hnot hfresh
    exact ih t _ _ (hs.setVar x v) (hfree.setVar x v) hnot hfresh
  | getAttr l key k ih =>
    intro t c d hs hfree hnot hfresh
    rw [exec, direct, hs.getattr]
    exact (ih _ t c d hs hfree hnot (hfresh.of_subset (List.subset_append_right _ _))).after _
  | setAttr l key v k ih =>
    intro t c d hs hfree hnot hfresh
    exact ih t _ _ (hs.setattr l key v) (hfree.setattr l key v) hnot hfresh
  | delAttr l key k ih =>
    intro t c d hs hfree hnot hfresh
    obtain ⟨hs', hr⟩ := hs.delAttr l key
    rw [exec, direct, hr]
    exact (ih _ t _ _ hs' (delAttr_keeps hfree l key).1 hnot
      (hfresh.of_subset (List.subset_append_right _ _))).after _
  | asyncToSync h body k ihb ihk =>
    intro t c d hs hfree hnot hfresh
    refine deviates_call (simulates_asyncToSync h (exec_sim body t₀)) (callDeviates_asyncToSync h (exec_sim body t₀) ihb)
      ihk t c d hs hfree ?_ hfresh
    rintro ⟨⟨hin, hbody, hout⟩, hk⟩
    exact hnot ⟨hin, hbody, hout, hk⟩
  | syncToAsync h body k ihb ihk =>
    intro t c d hs hfree hnot hfresh
    refine deviates_call (simulates_syncToAsync h (exec_sim body t₀)) (callDeviates_syncToAsync h (exec_sim body t₀) ihb)
      ihk t c d hs hfree ?_ hfresh
    rintro ⟨⟨hin, hbody, hout, harrived⟩, hk⟩
    exact hnot ⟨hin, hbody, hout, harrived, hk⟩

/-- **When wrapping is transparent.**  A program, started in a context whose `Local` storage belongs to its thread and
where it is not blocked, does what the direct program does if all its calls are faithful; and, unless a call of the
direct program ends with an exception that a comparison raises, only then. -/
theorem transparent_iff {m : Mode} {p : Prog U m} {t : ThreadId} {c : Context U} (hown : Owned t c)
    (hfree : NotBlocked m t c) :
    (Faithful vars passage t p c → Agrees vars passage p t c) ∧
      (Fresh vars passage (direct vars passage t p c).events → Agrees vars passage p t c → Faithful vars passage t p c) := by
  constructor
  · intro hf
    obtain ⟨o, ho, hmatch⟩ := exec_sim p t t c c (Sim.refl hown) hfree hf
    exact ⟨o, ho, hmatch.events, hmatch.result, hmatch.sim.view⟩
  · rintro hfresh ⟨o, ho, hevents, -, -⟩
    by_contra hnot
    exact (exec_parts p t t c c (Sim.refl hown) hfree hnot hfresh o ho).ne hevents

end

/-! ### A function that binds a variable of its caller -/

/-- The body that ends with `r`. -/
def Prog.ofResult {U : Type} {m : Mode} : Result U → Prog U m
  | .ok v => .ret v
  | .error e => .raise e

/-- A coroutine that binds a variable to 0 and awaits a function that binds it to 1. -/
def rebind : Prog Nat .async :=
  .setVar 0 0 (.syncToAsync ⟨1, ⟨false, .loopDefault, none⟩⟩ (.setVar 0 1 (.ret 5)) .ofResult)

theorem tellsApart_numbers (context cur : Context Nat) : TellsApart numbers context cur := by
  intro x v w hv hw
  have hw : cur.lookup (.user x) = some w := by simpa [cvarGet, numbers] using hw
  cases hne : numbers.ne w v with
  | error e => cases hne
  | ok b =>
    cases b with
    | true => trivial
    | false =>
      have hwv : w = v := by simpa [numbers] using hne
      rw [← hwv]
      exact hw

/-- With numbers the program is transparent, with arrays it is not. -/
theorem transparent_rebind : Agrees numbers .plain rebind 0 ∅ ∧ ¬ Agrees arrays .plain rebind 0 ∅ := by
  have hnumbers := @transparent_iff _ numbers .plain _ rebind 0 ∅ nofun (Or.inr rfl)
  have harrays := @transparent_iff _ arrays .plain _ rebind 0 ∅ nofun (Or.inr rfl)
  constructor
  · exact hnumbers.1 ⟨tellsApart_numbers _ _, trivial, tellsApart_numbers _ _, rfl, trivial⟩
  · intro h
    refine absurd (harrays.2 ?_ h).1 fun hself => ?_
    · rintro e v hmem
      rcases hmem with _ | ⟨_, _ | ⟨_, hmem⟩⟩
      cases hmem
    · have hraise := hself 0 0 0 rfl rfl
      cases hraise

/-- **A wrapped call raises what the direct one does not**: a coroutine binds a variable to an array and awaits a
function that binds it to another one. -/
theorem not_transparent : ¬ ∀ vars : UserVars Nat, (∀ v w, vars.ne v w = .ok false → v = w) →
    ∀ (p : Prog Nat .async) (t : ThreadId) (c : Context Nat), Owned t c → NotBlocked .async t c →
      Agrees vars .plain p t c := by
  intro h
  obtain ⟨o, ho, -, hr, -⟩ := h arrays nofun rebind 0 ∅ nofun (Or.inr rfl)
  cases ho
  cases hr

/-- What a function raises may not arrive: with a future that does not take it, its caller waits for ever. -/
example : exec numbers ⟨id, fun _ => none⟩ (.syncToAsync ⟨1, ⟨false, .loopDefault, none⟩⟩ (.raise .lookupError) .ofResult) 0
    ∅ = none := rfl

end Asgiref.Sync.Transparency
