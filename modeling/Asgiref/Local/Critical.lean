import Asgiref.Local.Objects
import Mathlib.Data.List.Induction

/-!
# Thread-critical `Local`s never cross threads

* `Wrote`, `lastSync`: what a thread has written, and what its sync code has written last, read off the actions;
* `Inv`: a `_CVar` of a thread-critical `Local` belongs to one thread, and every context has in it what that thread has
  written, whoever owns the storage; `inv_step` is the step lemma;
* `critical_reads_own`: a thread reads nothing but what it has written through that `Local`, and its sync code what it has written
  last.
-/

namespace Asgiref.Local.Objects

open Asgiref.Python Asgiref.Lib Asgiref.Sync

variable {U : Type}

/-- The thread `i` has written the value through the thread-critical `Local` `n`. -/
def Wrote (past : List (Action U)) (i : ThreadNo) (n : Nat) (key : String) (v : U) : Prop :=
  ∃ c running, Action.write c i running (.critical n) key v ∈ past

/-- What sync code of the thread `i` has written last, after one more action. -/
def syncStep (i : ThreadNo) (n : Nat) (key : String) (o : Option U) : Action U → Option U
  | .write _ j false (.critical m) k v => if j = i ∧ m = n ∧ k = key then some v else o
  | .delete _ j false (.critical m) k => if j = i ∧ m = n ∧ k = key then none else o
  | _ => o

/-- What sync code of the thread `i` has written last and not deleted. -/
def lastSync (past : List (Action U)) (i : ThreadNo) (n : Nat) (key : String) : Option U :=
  past.foldl (syncStep i n key) none

/-- The name is none that the implementation uses. -/
def Action.Usable : Action U → Prop
  | .read _ _ _ _ key | .write _ _ _ _ key _ | .delete _ _ _ _ key => key ∉ onObject ∧ key ≠ "_data" ∧ key ≠ "cvar"
  | _ => True

/-- What holds after the actions `past`. -/
structure Inv (past : List (Action U)) (s : State U) : Prop where
  sync : ∀ i y n key, s.thread i = some y → key ≠ "cvar" → y.attrs n key = (lastSync past i n key).map .value
  made : ∀ i y n o, s.thread i = some y → y.attrs n "cvar" = some o → ∃ k, o = .cvar k ∧ s.owner k = some (i, n)
  stored : ∀ c x k i n st key v, s.contexts c = some x → s.owner k = some (i, n) → x.data (.user k) = some st →
    st.data key = some v → Wrote past i n key v
  fresh : ∀ k, s.cvars ≤ k → s.owner k = none ∧ ∀ c x, s.contexts c = some x → x.data (.user k) = none
  locals : ∀ k ∈ s.locals, k < s.cvars ∧ s.owner k = none
  data : ∀ k, s.data k = none
  object : ∀ n key, s.object (.critical n) key = none
  unused : ∀ i, s.threads.length ≤ i → ∀ n key, lastSync past i n key = none

section

variable {past : List (Action U)} {a : Action U} {s s' : State U} {i : ThreadNo} {y : Thread U} {n : Nat}

theorem lastSync_snoc (past : List (Action U)) (a : Action U) (i : ThreadNo) (n : Nat) (key : String) :
    lastSync (past ++ [a]) i n key = syncStep i n key (lastSync past i n key) a := by
  unfold lastSync
  rw [List.foldl_append]
  rfl

theorem Wrote.snoc {key : String} {v : U} (h : Wrote past i n key v) (a : Action U) : Wrote (past ++ [a]) i n key v := by
  obtain ⟨c, running, hmem⟩ := h
  exact ⟨c, running, List.mem_append_left _ hmem⟩

/-- What sync code has written last, the thread has written. -/
theorem wrote_of_lastSync {key : String} {v : U} (h : lastSync past i n key = some v) : Wrote past i n key v := by
  induction past using List.reverseRecOn with
  | nil => cases h
  | append_singleton past a ih =>
    rw [lastSync_snoc] at h
    unfold syncStep at h
    split at h
    · split at h
      · next hall =>
        obtain ⟨rfl, rfl, rfl⟩ := hall
        cases h
        exact ⟨_, false, List.mem_append_right _ (List.mem_singleton.2 rfl)⟩
      · exact (ih h).snoc _
    · split at h
      · cases h
      · exact (ih h).snoc _
    · exact (ih h).snoc a

theorem inv_init : Inv [] (State.init : State U) := by
  have hempty : ∀ c x, (State.init : State U).contexts c = some x → ∀ k, x.data (.user k) = none := by
    intro c x hx k
    by_cases hc : c = 0
    · subst hc
      cases hx
      rfl
    · simp only [State.init, Function.update_of_ne hc] at hx
      cases hx
  exact ⟨nofun, nofun, nofun, fun k _ => ⟨rfl, fun c x hx => hempty c x hx k⟩, nofun, fun _ => rfl, fun _ _ => rfl,
    fun _ _ _ _ => rfl⟩

theorem Inv.lt_of_owner (h : Inv past s) {k : CVarNo} {p : ThreadNo × Nat} (hk : s.owner k = some p) : k < s.cvars := by
  by_contra hge
  rw [(h.fresh k (Nat.le_of_not_lt hge)).1] at hk
  cases hk

/-! ### The pieces of the steps -/

/-- The action does nothing to sync attributes. -/
def Action.Silent (a : Action U) : Prop := ∀ i n key o, syncStep i n key o a = o

theorem lastSync_of_silent (ha : a.Silent) (i : ThreadNo) (n : Nat) (key : String) :
    lastSync (past ++ [a]) i n key = lastSync past i n key := (lastSync_snoc ..).trans (ha ..)

/-- One context changes: its data was in a context before, or has been written by the owner of the `_CVar`. -/
theorem Inv.contexts (h : Inv past s) (ha : a.Silent) {c : ContextId} {x : Context U}
    (hx : ∀ k st, x.data (.user k) = some st → k < s.cvars ∧ ∀ key v, st.data key = some v →
      (∃ c x st, s.contexts c = some x ∧ x.data (.user k) = some st ∧ st.data key = some v) ∨
        ∀ i n, s.owner k = some (i, n) → Wrote (past ++ [a]) i n key v) :
    Inv (past ++ [a]) (s.setContext c x) := by
  refine ⟨fun i y n key hi hkey => ?_, h.made, ?_, fun k hk => ⟨(h.fresh k hk).1, ?_⟩, h.locals, h.data, h.object, ?_⟩
  · rw [lastSync_of_silent ha]
    exact h.sync i y n key hi hkey
  · intro d z k i n st key v hz hk hst hv
    obtain ⟨-, rfl⟩ | hold := contexts_setContext_cases hz
    · obtain ⟨d, z, st, hz, hst, hv⟩ | hwrote := (hx k st hst).2 key v hv
      · exact (h.stored d z k i n st key v hz hk hst hv).snoc a
      · exact hwrote i n hk
    · exact (h.stored d z k i n st key v hold hk hst hv).snoc a
  · intro d z hz
    obtain ⟨-, rfl⟩ | hold := contexts_setContext_cases hz
    · by_contra hsome
      obtain ⟨st, hst⟩ := Option.ne_none_iff_exists'.1 hsome
      exact absurd (hx k st hst).1 (Nat.not_lt_of_le hk)
    · exact (h.fresh k hk).2 d z hold
  · intro i hi n key
    rw [lastSync_of_silent ha]
    exact h.unused i hi n key

/-- A context that was there before. -/
theorem Inv.context_old (h : Inv past s) {c : ContextId} {x : Context U} (hx : s.contexts c = some x) {k : CVarNo}
    {st : Storage U} (hst : x.data (.user k) = some st) : k < s.cvars := by
  by_contra hge
  rw [(h.fresh k (Nat.le_of_not_lt hge)).2 c x hx] at hst
  cases hst

/-- The thread's own attribute changes. -/
theorem Inv.setAttr (h : Inv past s) (hi : s.thread i = some y) {key : String} (hkey : key ≠ "cvar") {o : Option U}
    (ha : ∀ j m k p, syncStep j m k p a = if j = i ∧ m = n ∧ k = key then o else p) :
    Inv (past ++ [a]) (s.setThread i (y.setAttr n key (o.map .value))) := by
  refine ⟨fun j z m k hj hk => ?_, fun j z m p hj hp => ?_, ?_, h.fresh, h.locals, h.data, h.object, ?_⟩
  · obtain ⟨w, hw, hattrs⟩ := thread_setAttr hi hj
    rw [hattrs, lastSync_snoc, ha, apply_ite (Option.map Obj.value), h.sync j w m k hw hk]
  · obtain ⟨w, hw, hattrs⟩ := thread_setAttr hi hj
    rw [hattrs, if_neg fun hall => hkey hall.2.2.symm] at hp
    exact h.made j w m p hw hp
  · intro c x k j m st key' v hx hk hst hv
    exact (h.stored c x k j m st key' v hx hk hst hv).snoc a
  · intro j hj m k
    have hj' : s.threads.length ≤ j := by simpa [State.setThread] using hj
    have hji : j ≠ i := by
      rintro rfl
      exact absurd (thread_lt hi) (Nat.not_lt_of_le hj')
    rw [lastSync_snoc, ha, if_neg fun hall => hji hall.1]
    exact h.unused j hj' m k

theorem inv_makeCVar (h : Inv past s) (hi : s.thread i = some y) : Inv past (makeCVar s i y n) := by
  have howner : ∀ k, k ≠ s.cvars → (makeCVar s i y n).owner k = s.owner k := fun k hk => Function.update_of_ne hk _ _
  have hthread : ∀ {j z}, (makeCVar s i y n).thread j = some z → ∃ w, s.thread j = some w ∧
      ∀ m k, z.attrs m k = if j = i ∧ m = n ∧ k = "cvar" then some (.cvar s.cvars) else w.attrs m k :=
    fun hz => thread_setAttr hi hz
  refine ⟨fun j z m k hj hk => ?_, fun j z m p hj hp => ?_, ?_, fun k hk => ?_, fun k hk => ?_, h.data, h.object, ?_⟩
  · obtain ⟨w, hw, hattrs⟩ := hthread hj
    rw [hattrs, if_neg fun hall => hk hall.2.2]
    exact h.sync j w m k hw hk
  · obtain ⟨w, hw, hattrs⟩ := hthread hj
    rw [hattrs] at hp
    split at hp
    · next hall =>
      obtain ⟨rfl, rfl, -⟩ := hall
      cases hp
      exact ⟨s.cvars, rfl, Function.update_self ..⟩
    · obtain ⟨k, rfl, hk⟩ := h.made j w m p hw hp
      exact ⟨k, rfl, (howner k (Nat.ne_of_lt (h.lt_of_owner hk))).trans hk⟩
  · intro c x k j m st key v hx hk hst hv
    by_cases hks : k = s.cvars
    · rw [hks, (h.fresh s.cvars (Nat.le_refl _)).2 c x hx] at hst
      cases hst
    · exact h.stored c x k j m st key v hx ((howner k hks).symm.trans hk) hst hv
  · have hlt : s.cvars < k := hk
    exact ⟨(howner k (Nat.ne_of_gt hlt)).trans (h.fresh k (Nat.le_of_lt hlt)).1, (h.fresh k (Nat.le_of_lt hlt)).2⟩
  · obtain ⟨hlt, hnone⟩ := h.locals k hk
    exact ⟨Nat.lt_succ_of_lt hlt, (howner k (Nat.ne_of_lt hlt)).trans hnone⟩
  · intro j hj m k
    exact h.unused j (by simpa [makeCVar, State.setThread] using hj) m k

/-- An action that changes nothing else. -/
theorem Inv.more (h : Inv past s) (ha : a.Silent) : Inv (past ++ [a]) s := by
  refine ⟨fun i y n key hi hkey => ?_, h.made, ?_, h.fresh, h.locals, h.data, h.object, fun i hi n key => ?_⟩
  · rw [lastSync_of_silent ha]
    exact h.sync i y n key hi hkey
  · intro c x k i n st key v hx hk hst hv
    exact (h.stored c x k i n st key v hx hk hst hv).snoc a
  · rw [lastSync_of_silent ha]
    exact h.unused i hi n key

theorem inv_start (h : Inv past s) (ha : a.Silent) (tid : ThreadId) :
    Inv (past ++ [a]) { s with threads := s.threads ++ [some { ident := tid }] } := by
  have hmore := h.more ha
  have hthread : ∀ j z, State.thread { s with threads := s.threads ++ [some { ident := tid }] } j = some z →
      s.thread j = some z ∨ j = s.threads.length ∧ z = { ident := tid } := by
    intro j z hz
    unfold State.thread at hz ⊢
    obtain hlt | heq | hgt := Nat.lt_trichotomy j s.threads.length
    · rw [List.getElem?_append_left hlt] at hz
      exact .inl hz
    · subst heq
      rw [List.getElem?_concat_length] at hz
      cases hz
      exact .inr ⟨rfl, rfl⟩
    · rw [List.getElem?_eq_none (by rw [List.length_append]; exact hgt)] at hz
      cases hz
  refine ⟨fun j z m key hj hkey => ?_, fun j z m p hj hp => ?_, hmore.stored, hmore.fresh, hmore.locals, hmore.data,
    hmore.object, fun j hj => hmore.unused j ?_⟩
  · obtain hold | ⟨rfl, rfl⟩ := hthread j z hj
    · exact hmore.sync j z m key hold hkey
    · rw [hmore.unused _ (Nat.le_refl _)]
      rfl
  · obtain hold | ⟨-, rfl⟩ := hthread j z hj
    · exact hmore.made j z m p hold hp
    · cases hp
  · have hlen : s.threads.length + 1 ≤ j := by simpa using hj
    exact Nat.le_of_succ_le hlen

theorem inv_exit (h : Inv past s) (ha : a.Silent) (i : ThreadNo) :
    Inv (past ++ [a]) { s with threads := s.threads.set i none } := by
  have hmore := h.more ha
  have hthread : ∀ j z, State.thread { s with threads := s.threads.set i none } j = some z → s.thread j = some z := by
    intro j z hz
    unfold State.thread at hz ⊢
    rw [List.getElem?_set] at hz
    split at hz
    · split at hz <;> cases hz
    · exact hz
  exact ⟨fun j z m key hj => hmore.sync j z m key (hthread j z hj), fun j z m p hj => hmore.made j z m p (hthread j z hj),
    hmore.stored, hmore.fresh, hmore.locals, hmore.data, hmore.object, fun j hj => hmore.unused j (by simpa using hj)⟩

theorem inv_newLocal (h : Inv past s) (ha : a.Silent) :
    Inv (past ++ [a]) { s with locals := s.locals ++ [s.cvars], cvars := s.cvars + 1 } := by
  have hmore := h.more ha
  refine ⟨hmore.sync, hmore.made, hmore.stored, fun k hk => hmore.fresh k (Nat.le_of_succ_le hk), fun k hk => ?_,
    hmore.data, hmore.object, hmore.unused⟩
  obtain hold | hnew := List.mem_append.1 hk
  · exact ⟨Nat.lt_succ_of_lt (hmore.locals k hold).1, (hmore.locals k hold).2⟩
  · cases List.mem_singleton.1 hnew
    exact ⟨Nat.lt_succ_self _, (hmore.fresh _ (Nat.le_refl _)).1⟩

/-! ### Attribute access -/

/-- What `_lock_storage` yields: the `_CVar` of this thread, or of a `Local` that is not thread-critical, or the
thread-local attributes. -/
def Yields (s₁ : State U) (s : State U) (i : ThreadNo) (running : Bool) (l : LocalObj) (t : Target U) : Prop :=
  (∃ k, t = .cvar k ∧ k < s₁.cvars ∧ (running = true ∨ ∃ n, l = .shared n) ∧
    ∀ j m, s₁.owner k = some (j, m) → j = i ∧ l = .critical m) ∨
  ∃ n, l = .critical n ∧ running = false ∧ t = .threadLocal n ∧ s₁ = s

/-- A thread that runs a loop has a `_CVar` of its own. -/
theorem lockStorage_running (h : Inv past s) (hi : s.thread i = some y) (n : Nat) :
    ∃ s₁ k, lockStorage s i y true (.critical n) = some (s₁, .cvar k) ∧ Inv past s₁ ∧ s₁.contexts = s.contexts ∧
      s₁.owner k = some (i, n) := by
  simp only [lockStorage, if_true]
  cases hattr : y.attrs n "cvar" with
  | none => exact ⟨_, _, rfl, inv_makeCVar h hi, rfl, Function.update_self ..⟩
  | some o =>
    obtain ⟨k, rfl, hown⟩ := h.made i y n o hi hattr
    exact ⟨s, k, rfl, h, rfl, hown⟩

theorem lockStorage_spec (h : Inv past s) (hi : s.thread i = some y) {running : Bool} {l : LocalObj} {s₁ : State U}
    {t : Target U} (hl : lockStorage s i y running l = some (s₁, t)) :
    Inv past s₁ ∧ s₁.contexts = s.contexts ∧ Yields s₁ s i running l t := by
  cases l with
  | shared n =>
    simp only [lockStorage, Option.map_eq_some_iff, Prod.mk.injEq] at hl
    obtain ⟨k, hk, rfl, rfl⟩ := hl
    obtain ⟨hlt, hnone⟩ := h.locals k (List.mem_of_getElem? hk)
    refine ⟨h, rfl, .inl ⟨k, rfl, hlt, .inr ⟨n, rfl⟩, fun j m hjm => ?_⟩⟩
    rw [hnone] at hjm
    cases hjm
  | critical n =>
    cases running with
    | false =>
      cases hl
      exact ⟨h, rfl, .inr ⟨n, rfl, rfl, rfl, rfl⟩⟩
    | true =>
      obtain ⟨s₂, k, hl', h₂, hcontexts, hown⟩ := lockStorage_running h hi n
      cases hl.symm.trans hl'
      refine ⟨h₂, hcontexts, .inl ⟨k, rfl, h₂.lt_of_owner hown, .inl rfl, fun j m hjm => ?_⟩⟩
      cases hown.symm.trans hjm
      exact ⟨rfl, rfl⟩

theorem silent_write {c : ContextId} {running : Bool} {l : LocalObj} (hl : running = true ∨ ∃ n, l = .shared n)
    (key : String) (v : U) : (Action.write c i running l key v).Silent := by
  intro j m k o
  obtain rfl | ⟨n, rfl⟩ := hl
  · rfl
  · cases running <;> rfl

theorem silent_delete {c : ContextId} {running : Bool} {l : LocalObj} (hl : running = true ∨ ∃ n, l = .shared n)
    (key : String) : (Action.delete c i running l key : Action U).Silent := by
  intro j m k o
  obtain rfl | ⟨n, rfl⟩ := hl
  · rfl
  · cases running <;> rfl

/-- The data of a context after a change of the attributes in the variable of one `_CVar`. -/
theorem data_setData_cases {x : Context U} {tid : ThreadId} {k k' : CVarNo} {d : String → Option U} {st : Storage U}
    (h : (x.setData (.user k) ⟨tid, d⟩).data (.user k') = some st) :
    k' = k ∧ st.data = d ∨ k' ≠ k ∧ x.data (.user k') = some st := by
  by_cases hk : k' = k
  · subst hk
    rw [Context.data_setData] at h
    cases h
    exact .inl ⟨rfl, rfl⟩
  · rw [Context.data_setData_ne x _ (by simpa using hk)] at h
    exact .inr ⟨hk, h⟩

/-- Attributes that the thread could see are set anew, or changed as the action says. -/
theorem Inv.setData (h : Inv past s) (ha : a.Silent) {c : ContextId} {x : Context U} (hx : s.contexts c = some x)
    {tid : ThreadId} {k : CVarNo} (hk : k < s.cvars) {d : String → Option U}
    (hd : ∀ key v, d key = some v → (x.storage tid (.user k)).data key = some v ∨
      ∀ i n, s.owner k = some (i, n) → Wrote (past ++ [a]) i n key v) :
    Inv (past ++ [a]) (s.setContext c (x.setData (.user k) ⟨tid, d⟩)) := by
  refine h.contexts ha fun k' st hst => ?_
  obtain ⟨rfl, rfl⟩ | ⟨-, hold⟩ := data_setData_cases hst
  · refine ⟨hk, fun key v hv => (hd key v hv).imp (fun hseen => ?_) id⟩
    obtain ⟨st', hst', -, hv'⟩ := Context.data_storage.1 hseen
    exact ⟨c, x, st', hx, hst', hv'⟩
  · exact ⟨h.context_old hx hold, fun key v hv => .inl ⟨c, x, st, hx, hold, hv⟩⟩

theorem inv_read (h : Inv past s) {c : ContextId} {x : Context U} (hi : s.thread i = some y) {running : Bool}
    {l : LocalObj} {key : String} {r : Outcome U} (hr : readLocal s x i y running l key = some (s', r)) :
    Inv (past ++ [.read c i running l key]) s' := by
  unfold readLocal at hr
  split at hr
  · cases hr
    exact h.more fun _ _ _ _ => rfl
  · obtain ⟨⟨s₁, t⟩, hl, hr⟩ := Option.map_eq_some_iff.1 hr
    cases hr
    exact (lockStorage_spec h hi hl).1.more fun _ _ _ _ => rfl

theorem inv_write (h : Inv past s) {c : ContextId} {x : Context U} (hx : s.contexts c = some x)
    (hi : s.thread i = some y) {running : Bool} {l : LocalObj} {key : String} {v : U} {r : Outcome U}
    (hkey : key ∉ onObject ∧ key ≠ "_data" ∧ key ≠ "cvar")
    (hw : writeLocal s c x i y running l key v = some (s', r)) :
    Inv (past ++ [.write c i running l key v]) s' := by
  unfold writeLocal at hw
  rw [if_neg hkey.1] at hw
  obtain ⟨⟨s₁, t⟩, hl, hw⟩ := Option.map_eq_some_iff.1 hw
  obtain ⟨h₁, hcontexts, hy⟩ := lockStorage_spec h hi hl
  obtain ⟨k, rfl, hk, hsilent, hown⟩ | ⟨n, rfl, rfl, rfl, rfl⟩ := hy
  · simp only [setOn, cvarSet, if_neg hkey.2.1, h₁.data, ended, Prod.mk.injEq] at hw
    obtain ⟨rfl, -⟩ := hw
    refine h₁.setData (silent_write hsilent key v) (hcontexts ▸ hx) hk fun key' v' hv' => ?_
    by_cases hkk : key' = key
    · subst hkk
      rw [Function.update_self] at hv'
      cases hv'
      refine .inr fun j m hjm => ?_
      obtain ⟨rfl, rfl⟩ := hown j m hjm
      exact ⟨c, running, List.mem_append_right _ (List.mem_singleton.2 rfl)⟩
    · rw [Function.update_of_ne hkk] at hv'
      exact .inl hv'
  · cases hw
    exact h.setAttr (o := some v) hi hkey.2.2 fun j m k p => by
      simp only [syncStep, eq_comm (a := i), eq_comm (a := n), eq_comm (a := key)]

theorem inv_delete (h : Inv past s) {c : ContextId} {x : Context U} (hx : s.contexts c = some x)
    (hi : s.thread i = some y) {running : Bool} {l : LocalObj} {key : String} {r : Outcome U}
    (hkey : key ∉ onObject ∧ key ≠ "_data" ∧ key ≠ "cvar")
    (hw : deleteLocal s c x i y running l key = some (s', r)) :
    Inv (past ++ [.delete c i running l key]) s' := by
  unfold deleteLocal at hw
  obtain ⟨⟨s₁, t⟩, hl, hend⟩ := Option.map_eq_some_iff.1 hw
  obtain ⟨h₁, hcontexts, hy⟩ := lockStorage_spec h hi hl
  obtain ⟨k, rfl, hk, hsilent, -⟩ | ⟨n, rfl, rfl, rfl, rfl⟩ := hy
  · simp only [deleteOn, cvarDelete, h₁.data] at hend
    cases hx' : x.delattr y.ident (.user k) key with
    | error e =>
      simp only [hx', ended, Prod.mk.injEq] at hend
      obtain ⟨rfl, -⟩ := hend
      exact h₁.more (silent_delete hsilent key)
    | ok x' =>
      simp only [hx', ended, Prod.mk.injEq] at hend
      obtain ⟨rfl, -⟩ := hend
      obtain ⟨-, rfl⟩ := Context.delattr_eq_ok.1 hx'
      refine h₁.setData (silent_delete hsilent key) (hcontexts ▸ hx) hk fun key' v' hv' => ?_
      by_cases hkk : key' = key
      · subst hkk
        rw [Function.update_self] at hv'
        cases hv'
      · rw [Function.update_of_ne hkk] at hv'
        exact .inl hv'
  · have hstep : ∀ j m k p, syncStep j m k p (.delete c i false (.critical n) key : Action U) =
        if j = i ∧ m = n ∧ k = key then none else p := by
      intro j m k p
      simp only [syncStep, eq_comm (a := i), eq_comm (a := n), eq_comm (a := key)]
    have hdel := h.setAttr (o := none) hi hkey.2.2 hstep
    dsimp only [deleteOn] at hend
    cases hattr : y.attrs n key with
    | some o =>
      rw [hattr] at hend
      cases hend
      exact hdel
    | none =>
      -- the delete raises, and there was nothing to delete
      rw [hattr] at hend
      cases hend
      have hsame : y.setAttr n key none = y := by
        unfold Thread.setAttr
        rw [← hattr, Function.update_eq_self, Function.update_eq_self]
      rw [Option.map_none, hsame, setThread_self hi] at hdel
      exact hdel

/-! ### Every action -/

/-- A variable that is not that of a `_CVar` is set. -/
theorem data_insert_of_not_isCVar {x : Context U} {z : Var} (hz : ¬ isCVar z = true) (w : z.Value U) (k : CVarNo) :
    Context.data (AList.insert z w x) (.user k) = x.data (.user k) := by
  unfold Context.data
  refine AList.lookup_insert_ne fun he => hz ?_
  rw [← he]
  rfl

/-- A `_CVar` keeps its data in the current context, or has that of the context that is restored. -/
theorem data_restored_cases {vars : Sync.UserVars U} {tid : ThreadId} {z : Var} {src cur : Context U} {k : CVarNo}
    {st : Storage U} (h : (restored vars tid z src cur).data (.user k) = some st) :
    cur.data (.user k) = some st ∨ ∃ st', src.data (.user k) = some st' ∧ st.data = st'.data := by
  unfold restored at h
  split at h
  · exact .inl h
  · next w hw =>
    split at h
    · next w' hw' =>
      by_cases hz : Var.data (.user k) = z
      · subst hz
        cases restoreVar_eq_some hw'
        rw [Context.data, AList.lookup_insert] at h
        cases h
        exact .inr ⟨w, hw, rfl⟩
      · rw [Context.data, AList.lookup_insert_ne hz] at h
        exact .inl h
    · exact .inl h

variable {vars : Sync.UserVars U}

/-- **One action.** -/
theorem inv_step (h : Inv past s) (ha : a.Usable) (hs : (machine vars).step s a = some s') : Inv (past ++ [a]) s' := by
  obtain ⟨⟨t, r⟩, hp, rfl⟩ := Option.map_eq_some_iff.1 hs
  cases a with
  | start tid =>
    cases hp
    exact inv_start h (fun _ _ _ _ => rfl) tid
  | exit i =>
    simp only [perform, Option.bind_eq_bind, Option.bind_eq_some_iff] at hp
    obtain ⟨y, -, hp⟩ := hp
    cases hp
    exact inv_exit h (fun _ _ _ _ => rfl) i
  | newContext new =>
    simp only [perform, Option.ite_none_right_eq_some] at hp
    obtain ⟨-, hp⟩ := hp
    cases hp
    exact h.contexts (fun _ _ _ _ => rfl) (fun k st hst => by cases hst)
  | copy c new =>
    simp only [perform, Option.bind_eq_bind, Option.bind_eq_some_iff, Option.ite_none_right_eq_some] at hp
    obtain ⟨x, hx, -, hp⟩ := hp
    cases hp
    exact h.contexts (fun _ _ _ _ => rfl) fun k st hst =>
      ⟨h.context_old hx hst, fun key v hv => .inl ⟨c, x, st, hx, hst, hv⟩⟩
  | newLocal =>
    cases hp
    exact inv_newLocal h fun _ _ _ _ => rfl
  | setVar c z w =>
    simp only [perform, Option.bind_eq_bind, Option.bind_eq_some_iff, Option.ite_none_left_eq_some] at hp
    obtain ⟨x, hx, hz, hp⟩ := hp
    cases hp
    refine h.contexts (fun _ _ _ _ => rfl) fun k st hst => ?_
    rw [data_insert_of_not_isCVar hz] at hst
    exact ⟨h.context_old hx hst, fun key v hv => .inl ⟨c, x, st, hx, hst, hv⟩⟩
  | restore c context i z =>
    simp only [perform, Option.bind_eq_bind, Option.bind_eq_some_iff] at hp
    obtain ⟨x, hx, src, hsrc, y, -, hp⟩ := hp
    cases hp
    refine h.contexts (fun _ _ _ _ => rfl) fun k st hst => ?_
    obtain hold | ⟨st', hst', hdata⟩ := data_restored_cases hst
    · exact ⟨h.context_old hx hold, fun key v hv => .inl ⟨c, x, st, hx, hold, hv⟩⟩
    · exact ⟨h.context_old hsrc hst', fun key v hv => .inl ⟨context, src, st', hsrc, hst', hdata ▸ hv⟩⟩
  | read c i running l key =>
    simp only [perform, Option.bind_eq_bind, Option.bind_eq_some_iff, Option.ite_none_right_eq_some] at hp
    obtain ⟨x, hx, y, hi, -, hp⟩ := hp
    exact inv_read h hi hp
  | write c i running l key v =>
    simp only [perform, Option.bind_eq_bind, Option.bind_eq_some_iff, Option.ite_none_right_eq_some] at hp
    obtain ⟨x, hx, y, hi, -, hp⟩ := hp
    exact inv_write h hx hi ha hp
  | delete c i running l key =>
    simp only [perform, Option.bind_eq_bind, Option.bind_eq_some_iff, Option.ite_none_right_eq_some] at hp
    obtain ⟨x, hx, y, hi, -, hp⟩ := hp
    exact inv_delete h hx hi ha hp

/-- **Whole runs.** -/
theorem inv_run {as : List (Action U)} (hrun : (machine vars).run .init as = some s) (has : ∀ a ∈ as, a.Usable) :
    Inv as s := by
  have hall := (machine vars).run_history (I := fun past s => (∀ a ∈ past, a.Usable) → Inv past s)
    (fun past s a s' h hs husable => inv_step (h fun b hb => husable b (List.mem_append_left _ hb))
      (husable a (List.mem_append_right _ (List.mem_singleton.2 rfl))) hs) (fun _ => inv_init) hrun
  exact hall has

/-! ### What a thread reads -/

/-- A `_CVar` shows the thread that owns it what that thread has written, and nothing else. -/
theorem cvarGet_of_inv (h : Inv past s) {c : ContextId} {x : Context U} (hx : s.contexts c = some x) {k : CVarNo}
    {key : String} (hkey : key ≠ "_data") (hown : s.owner k = some (i, n)) :
    cvarGet s x y k key = .error .attributeError ∨ ∃ v, cvarGet s x y k key = .ok (.value v) ∧ Wrote past i n key v := by
  unfold cvarGet Context.getattr
  rw [if_neg hkey, h.data]
  cases hv : (x.storage y.ident (.user k)).data key with
  | none => exact .inl rfl
  | some v =>
    obtain ⟨st, hst, -, hv⟩ := Context.data_storage.1 hv
    exact .inr ⟨v, rfl, h.stored c x k i n st key v hx hown hst hv⟩

end

/-- **A thread-critical `Local` never crosses threads.**  After any run, a thread that reads an attribute gets a value
that this thread has written through this `Local`, or an `AttributeError`; and its sync code gets what sync code of the
thread has written last, in whatever context. -/
theorem critical_reads_own {vars : Sync.UserVars U} {as : List (Action U)} {s : State U}
    (hrun : (machine vars).run .init as = some s) (has : ∀ a ∈ as, a.Usable) {c : ContextId} {i : ThreadNo}
    (running : Bool) (n : Nat) {key : String} (hc : (s.contexts c).isSome = true) (hi : (s.thread i).isSome = true)
    (hname : isName key = true) (hkey : (Action.read c i running (.critical n) key : Action U).Usable) :
    ∃ s' r, perform s vars (.read c i running (.critical n) key) = some (s', r) ∧
      (r = .error .attributeError ∨ ∃ v, r = .ok (some (.value v)) ∧ Wrote as i n key v) ∧
      (running = false → r = match lastSync as i n key with
        | some v => .ok (some (.value v))
        | none => .error .attributeError) := by
  have h := inv_run hrun has
  obtain ⟨x, hx⟩ := Option.isSome_iff_exists.1 hc
  obtain ⟨y, hy⟩ := Option.isSome_iff_exists.1 hi
  obtain ⟨-, hdata, hcvar⟩ := hkey
  have hperform : perform s vars (.read c i running (.critical n) key) = readLocal s x i y running (.critical n) key := by
    simp only [perform, hx, hy, hname, Option.bind_eq_bind, Option.bind_some, if_true]
  rw [hperform, readLocal, h.object]
  cases running with
  | false =>
    have hsync := h.sync i y n key hy hcvar
    refine ⟨s, _, rfl, ?_⟩
    simp only [getOn, hsync]
    cases hlast : lastSync as i n key with
    | none => exact ⟨.inl rfl, fun _ => rfl⟩
    | some v => exact ⟨.inr ⟨v, rfl, wrote_of_lastSync hlast⟩, fun _ => rfl⟩
  | true =>
    obtain ⟨s₁, k, hl, h₁, hcontexts, hown⟩ := lockStorage_running h hy n
    refine ⟨s₁, (cvarGet s₁ x y k key).map some, by rw [hl]; rfl, ?_, fun h => by cases h⟩
    obtain hget | ⟨v, hget, hwrote⟩ := cvarGet_of_inv (y := y) h₁ (hcontexts ▸ hx) hdata hown
    · exact .inl (by rw [hget]; rfl)
    · exact .inr ⟨v, by rw [hget]; rfl, hwrote⟩

/-- A thread writes in its loop and outside it; a second one restores its context, and writes too. -/
def twoThreads : List (Action Nat) :=
  [.start 1, .write 0 0 false (.critical 0) "a" 7, .write 0 0 true (.critical 0) "a" 8, .start 2, .newContext 1,
    .restore 1 0 1 (.data (.user 0)), .write 1 1 false (.critical 0) "a" 9]

/-- The first thread reads outside its loop, in the context of the second. -/
theorem critical_reads_own_twoThreads : ∃ s, (machine Sync.numbers).run .init twoThreads = some s ∧
    ∃ s' r, perform s Sync.numbers (.read 1 0 false (.critical 0) "a") = some (s', r) ∧
      (r = .error .attributeError ∨ ∃ v, r = .ok (some (.value v)) ∧ Wrote twoThreads 0 0 "a" v) ∧
      (false = false → r = match lastSync twoThreads 0 0 "a" with
        | some v => .ok (some (.value v))
        | none => .error .attributeError) := by
  refine ⟨_, rfl, @critical_reads_own Nat Sync.numbers twoThreads _ rfl ?_ 1 0 false 0 "a" rfl rfl (by decide) ?_⟩
  · simp [twoThreads, Action.Usable, onObject]
  · simp [Action.Usable, onObject]

/-- **The name `_local`**, which the code uses for nothing, is stored on the object itself: what one thread writes, the
other reads. -/
theorem local_crosses_threads : ∃ s s' : State Nat,
    (machine Sync.numbers).run .init [.start 1, .start 2, .newContext 1, .write 0 0 false (.critical 0) "_local" 7] =
      some s ∧
    perform s Sync.numbers (.read 1 1 false (.critical 0) "_local") = some (s', .ok (some (.value 7))) ∧
    ¬ Wrote [.start 1, .start 2, .newContext 1, .write 0 0 false (.critical 0) "_local" 7] 1 0 "_local" (7 : Nat) :=
  ⟨_, _, rfl, rfl, by simp [Wrote]⟩

end Asgiref.Local.Objects
