import Asgiref.Local.Heap

/-!
# Contexts are isolated from each other

The contexts whose storages share dictionaries, against the contexts as values (`Context`) that the other modules
work with.

* `valueStep`: what an action does to the contexts as values, and to one of them at most;
* `Abstracts`: the values are what the references come to; `abstracts_perform` is the step lemma: no dictionary that a
  context can reach is ever changed in place;
* `isolated`: an operation leaves alone what every other context shows; a copy shows what its original showed; and one
  that raises `AttributeError` changes no context.
-/

namespace Asgiref.Local

open Asgiref.Python Asgiref.Lib Asgiref.Sync

variable {U : Type}

/-! ### What the methods do to the heap -/

theorem grows_setContext (s : State U) (c : ContextId) (x : HeapContext U) (i : CVarId) :
    (s.heap i).Grows ((s.setContext c x).heap i) := Heap.Grows.refl _

/-- Only new dictionaries were made. -/
structure Same (s s' : State U) : Prop where
  contexts : s'.contexts = s.contexts
  object : s'.object = s.object
  grows : ∀ i, (s.heap i).Grows (s'.heap i)

theorem Same.refl (s : State U) : Same s s := ⟨rfl, rfl, fun i => Heap.Grows.refl (s.heap i)⟩

theorem Same.trans {s₁ s₂ s₃ : State U} (h : Same s₁ s₂) (h' : Same s₂ s₃) : Same s₁ s₃ :=
  ⟨h'.contexts.trans h.contexts, h'.object.trans h.object, fun i => (h.grows i).trans (h'.grows i)⟩

theorem same_allocDict (s : State U) (i : CVarId) (d : Attrs (i.Attr U)) : Same s (s.allocDict i d).1 := by
  refine ⟨rfl, rfl, fun j => ?_⟩
  simp only [State.allocDict]
  by_cases hj : j = i
  · subst hj
    rw [Function.update_self]
    exact Heap.grows_alloc _ _
  · rw [Function.update_of_ne hj]
    exact Heap.Grows.refl _

theorem read_allocDict (s : State U) (i : CVarId) (d : Attrs (i.Attr U)) :
    ((s.allocDict i d).1.heap i).read (s.allocDict i d).2 = some d := by
  simp only [State.allocDict, Function.update_self, Heap.read_alloc]

/-- A write into a dictionary that `s` does not have. -/
theorem Same.writeDict {s s' : State U} (h : Same s s') {i : CVarId} {a : Nat} (ha : (s.heap i).read a = none)
    (d : Attrs (i.Attr U)) : Same s (s'.writeDict i a d) := by
  refine ⟨h.contexts, h.object, fun j => ?_⟩
  simp only [State.writeDict]
  by_cases hj : j = i
  · subst hj
    rw [Function.update_self]
    exact (h.grows j).write ha d
  · rw [Function.update_of_ne hj]
    exact h.grows j

theorem dict_of_read {s : State U} {i : CVarId} {a : Nat} {d : Attrs (i.Attr U)} (h : (s.heap i).read a = some d) :
    s.dict i a = d := by
  simp only [State.dict, h, Option.getD_some]

/-- The attributes that the thread can see in the context. -/
def seen (s : State U) (x : HeapContext U) (tid : ThreadId) (i : CVarId) : Attrs (i.Attr U) :=
  match x.refs i with
  | none => fun _ => none
  | some st => if st.threadId ≠ tid then fun _ => none else s.dict i st.address

theorem storage_spec (s : State U) (x : HeapContext U) (tid : ThreadId) (i : CVarId) :
    Same s (storage s x tid i).1 ∧ (storage s x tid i).1.dict i (storage s x tid i).2.address = seen s x tid i := by
  have hnew : Same s (s.allocDict i fun _ => none).1 ∧
      (s.allocDict i fun _ => none).1.dict i (s.allocDict i fun _ => none).2 = fun _ => none :=
    ⟨same_allocDict .., dict_of_read (read_allocDict ..)⟩
  cases h : x.refs i with
  | none =>
    simp only [storage, seen, h]
    exact hnew
  | some st =>
    simp only [storage, seen, h]
    by_cases ht : st.threadId ≠ tid
    · rw [if_pos ht, if_pos ht]
      exact hnew
    · rw [if_neg ht, if_neg ht]
      exact ⟨.refl s, rfl⟩

theorem getattr_spec (s : State U) (x : HeapContext U) (tid : ThreadId) (i : CVarId) (key : String) :
    Same s (getattr s x tid i key).1 ∧ (getattr s x tid i key).2 =
      match seen s x tid i key with
      | some v => .ok v
      | none => .error .attributeError := by
  obtain ⟨hsame, hdict⟩ := storage_spec s x tid i
  unfold getattr
  simp only [hdict]
  cases seen s x tid i key with
  | some v => exact ⟨hsame, rfl⟩
  | none => exact ⟨hsame, rfl⟩

/-- `data.copy()`, changed in place: the dictionary that is set is new. -/
structure Sets (s s' : State U) (c : ContextId) (x : HeapContext U) (tid : ThreadId) (i : CVarId)
    (d : Attrs (i.Attr U)) : Prop where
  object : s'.object = s.object
  grows : ∀ j, (s.heap j).Grows (s'.heap j)
  contexts : ∃ a, (s'.heap i).read a = some d ∧
    s'.contexts = Function.update s.contexts c (some { x with refs := Function.update x.refs i (some ⟨tid, a⟩) })

theorem sets_copy (s : State U) (c : ContextId) (x : HeapContext U) (tid : ThreadId) (i : CVarId)
    (f : Attrs (i.Attr U) → Attrs (i.Attr U)) :
    let s₁ := (storage s x tid i).1
    let b := s₁.allocDict i (s₁.dict i (storage s x tid i).2.address)
    b.1.dict i b.2 = seen s x tid i ∧ Same s b.1 ∧
      Sets s ((b.1.writeDict i b.2 (f (b.1.dict i b.2))).setRef c x i ⟨tid, b.2⟩) c x tid i (f (seen s x tid i)) := by
  intro s₁ b
  obtain ⟨hsame, hdict⟩ := storage_spec s x tid i
  have hb : (b.1.heap i).read b.2 = some (seen s x tid i) := by
    rw [← hdict]
    exact read_allocDict ..
  have hcopy : b.1.dict i b.2 = seen s x tid i := dict_of_read hb
  have hgrown : Same s b.1 := hsame.trans (same_allocDict ..)
  have hfresh : (s.heap i).read b.2 = none := by
    by_contra hsome
    obtain ⟨d, hd⟩ := Option.ne_none_iff_exists'.1 hsome
    have hold := (hsame.grows i) _ _ hd
    rw [show b.2 = ((s₁.heap i).alloc (s₁.dict i (storage s x tid i).2.address)).2 from rfl,
      Heap.read_alloc_old] at hold
    cases hold
  have hwritten := hgrown.writeDict hfresh (f (b.1.dict i b.2))
  refine ⟨hcopy, hgrown, hwritten.object, hwritten.grows, b.2, ?_, ?_⟩
  · simp only [State.setRef, State.setContext, State.writeDict, Function.update_self]
    rw [Heap.read_write hb, hcopy]
  · simp only [State.setRef, State.setContext]
    rw [hwritten.contexts]

theorem setattr_spec (s : State U) (c : ContextId) (x : HeapContext U) (tid : ThreadId) (i : CVarId) (key : String)
    (v : i.Attr U) :
    Sets s (setattr s c x tid i key v) c x tid i (Function.update (seen s x tid i) key (some v)) :=
  (sets_copy s c x tid i fun d => Function.update d key (some v)).2.2

theorem delattr_spec (s : State U) (c : ContextId) (x : HeapContext U) (tid : ThreadId) (i : CVarId) (key : String) :
    (seen s x tid i key).isSome = true ∧ (delattr s c x tid i key).2 = none ∧
        Sets s (delattr s c x tid i key).1 c x tid i (Function.update (seen s x tid i) key none) ∨
      seen s x tid i key = none ∧ (delattr s c x tid i key).2 = some .attributeError ∧
        Same s (delattr s c x tid i key).1 := by
  obtain ⟨hcopy, hsame, hsets⟩ := sets_copy s c x tid i fun d => Function.update d key none
  unfold delattr
  simp only [hcopy]
  split
  · next h =>
    refine .inl ⟨h, rfl, ?_⟩
    rw [hcopy] at hsets
    exact hsets
  · next h => exact .inr ⟨by simpa using h, rfl, hsame⟩

/-! ### Contexts as values -/

/-- The contexts, as values. -/
abbrev Values (U : Type) := ContextId → Option (Context U)

/-- The context `c` becomes what `f` makes of it. -/
def Values.modify (t : Values U) (c : ContextId) (f : Context U → Context U) : Values U :=
  Function.update t c ((t c).map f)

section

variable (vars : UserVars U)

/-- One variable of the context `src`, restored in the context `cur`. -/
def restored (tid : ThreadId) (y : Var) (src cur : Context U) : Context U :=
  match src.lookup y with
  | none => cur
  | some w =>
    match restoreVar vars tid y w (cur.lookup y) with
    | .ok (some w) => AList.insert y w cur
    | _ => cur

/-- What an action does to the contexts as values.  A thread-critical `Local` is not in them. -/
def valueStep (t : Values U) : Action U → Values U
  | .start new => Function.update t new (some ∅)
  | .copy c new => Function.update t new (t c)
  | .setVar c v w => t.modify c fun x => AList.insert v.toVar w x
  | .read .. => t
  | .write c tid _ (.shared l) key v => if key ∈ onObject then t else t.modify c fun x => x.setattr tid l key v
  | .write _ _ _ (.critical _) _ _ => t
  | .delete c tid _ (.shared l) key =>
    t.modify c fun x => match x.delattr tid l key with
      | .ok x' => x'
      | .error _ => x
  | .delete _ _ _ (.critical _) _ => t
  | .restoreRef c context tid (.shared l) =>
    t.modify c fun x => match t context with
      | some y => restored vars tid (.data l) y x
      | none => x
  | .restoreRef _ _ _ (.critical _ _) => t
  | .restorePlain c context tid v =>
    t.modify c fun x => match t context with
      | some y => restored vars tid v.toVar y x
      | none => x

theorem modify_of_ne (t : Values U) {c c' : ContextId} (f : Context U → Context U) (h : c' ≠ c) :
    t.modify c f c' = t c' := Function.update_of_ne h _ _

/-- An action changes the context in which it is executed, or makes a new one. -/
theorem valueStep_of_ne (t : Values U) {a : Action U} {c : ContextId} (hc : c ≠ a.context)
    (hnew : ∀ b, a ≠ .copy b c) : valueStep vars t a c = t c := by
  cases a with
  | start new => exact Function.update_of_ne hc _ _
  | copy b new =>
    refine Function.update_of_ne ?_ _ _
    rintro rfl
    exact hnew b rfl
  | setVar => exact modify_of_ne t _ hc
  | read => rfl
  | write b tid running l key v =>
    cases l with
    | shared l =>
      simp only [valueStep]
      split
      · rfl
      · exact modify_of_ne t _ hc
    | critical n => rfl
  | delete b tid running l key =>
    cases l with
    | shared l => exact modify_of_ne t _ hc
    | critical n => rfl
  | restoreRef b context tid i =>
    cases i with
    | shared l => exact modify_of_ne t _ hc
    | critical n u => rfl
  | restorePlain => exact modify_of_ne t _ hc

end

/-! ### The values are what the references come to -/

/-- The context `v` as a value is what the context `x` comes to. -/
structure Represents (s : State U) (x : HeapContext U) (v : Context U) : Prop where
  plain : ∀ y : PlainVar, v.lookup y.toVar = x.plain y
  data : ∀ l, v.data l = (x.refs (.shared l)).map fun st => ⟨st.threadId, s.dict (.shared l) st.address⟩

/-- All dictionaries that the context refers to are in the heap. -/
def Closed (s : State U) (x : HeapContext U) : Prop :=
  ∀ i st, x.refs i = some st → ((s.heap i).read st.address).isSome = true

/-- The contexts `t` as values are what those of `s` come to. -/
structure Abstracts (s : State U) (t : Values U) : Prop where
  present : ∀ c x, s.contexts c = some x → Closed s x ∧ ∃ v, t c = some v ∧ Represents s x v
  absent : ∀ c, s.contexts c = none → t c = none

theorem abstracts_init : Abstracts (State.init : State U) (Function.update (fun _ => none) 0 (some ∅)) := by
  constructor
  · intro c x hx
    by_cases hc : c = 0
    · subst hc
      cases hx
      exact ⟨nofun, ∅, rfl, fun y => rfl, fun l => rfl⟩
    · change Function.update (fun _ => none) 0 (some {}) c = some x at hx
      rw [Function.update_of_ne hc] at hx
      cases hx
  · intro c hc
    by_cases hc0 : c = 0
    · subst hc0
      cases hc
    · exact Function.update_of_ne hc0 _ _

section

variable {s s' : State U} {t : Values U} {x : HeapContext U} {v : Context U}

/-- New dictionaries do not matter to a context. -/
theorem Closed.grows (h : Closed s x) (hg : ∀ i, (s.heap i).Grows (s'.heap i)) : Closed s' x := by
  intro i st hst
  obtain ⟨d, hd⟩ := Option.isSome_iff_exists.1 (h i st hst)
  rw [hg i _ _ hd]
  rfl

theorem Represents.grows (h : Represents s x v) (hc : Closed s x) (hg : ∀ i, (s.heap i).Grows (s'.heap i)) :
    Represents s' x v := by
  refine ⟨h.plain, fun l => ?_⟩
  rw [h.data l]
  cases hst : x.refs (.shared l) with
  | none => rfl
  | some st =>
    obtain ⟨d, hd⟩ := Option.isSome_iff_exists.1 (hc _ st hst)
    simp only [Option.map_some, dict_of_read hd, dict_of_read (hg _ _ _ hd)]

/-- What is seen of a `Local` is what the context as a value has. -/
theorem Represents.seen (h : Represents s x v) (tid : ThreadId) (l : LocalId) :
    seen s x tid (.shared l) = (v.storage tid l).data := by
  unfold Local.seen Context.storage
  rw [h.data l]
  cases x.refs (.shared l) with
  | none => rfl
  | some st =>
    simp only [Option.map_some]
    split <;> rfl

/-- One context changes, and the heap grows. -/
theorem Abstracts.update (h : Abstracts s t) (hg : ∀ i, (s.heap i).Grows (s'.heap i)) {c : ContextId}
    (hcontexts : s'.contexts = Function.update s.contexts c (some x)) (hclosed : Closed s' x)
    (hrep : Represents s' x v) : Abstracts s' (Function.update t c (some v)) := by
  constructor
  · intro c' x' hx'
    rw [hcontexts] at hx'
    by_cases hc : c' = c
    · subst hc
      rw [Function.update_self] at hx'
      cases hx'
      exact ⟨hclosed, v, Function.update_self .., hrep⟩
    · rw [Function.update_of_ne hc] at hx'
      rw [Function.update_of_ne hc]
      obtain ⟨hcl, w, hw, hr⟩ := h.present c' x' hx'
      exact ⟨hcl.grows hg, w, hw, hr.grows hcl hg⟩
  · intro c' hc'
    rw [hcontexts] at hc'
    by_cases hc : c' = c
    · subst hc
      rw [Function.update_self] at hc'
      cases hc'
    · rw [Function.update_of_ne hc] at hc' ⊢
      exact h.absent c' hc'

/-- The contexts and the dictionaries are as they were, but for new dictionaries. -/
theorem Abstracts.congr (h : Abstracts s t) (hcontexts : s'.contexts = s.contexts)
    (hg : ∀ i, (s.heap i).Grows (s'.heap i)) : Abstracts s' t := by
  constructor
  · intro c x hx
    rw [hcontexts] at hx
    obtain ⟨hclosed, v, hv, hrep⟩ := h.present c x hx
    exact ⟨hclosed.grows hg, v, hv, hrep.grows hclosed hg⟩
  · intro c hc
    exact h.absent c (by rw [← hcontexts, hc])

theorem Abstracts.same (h : Abstracts s t) (hs : Same s s') : Abstracts s' t := h.congr hs.contexts hs.grows

theorem Closed.setRef (h : Closed s' x) {i : CVarId} {tid : ThreadId} {a : Nat} {d : Attrs (i.Attr U)}
    (ha : (s'.heap i).read a = some d) :
    Closed s' { x with refs := Function.update x.refs i (some ⟨tid, a⟩) } := by
  intro j st hst
  by_cases hj : j = i
  · subst hj
    simp only [Function.update_self, Option.some.injEq] at hst
    rw [← hst, ha]
    rfl
  · simp only [Function.update_of_ne hj] at hst
    exact h j st hst

/-- The variable of a `Local` is set to a storage with the dictionary `d`. -/
theorem Abstracts.setRef (h : Abstracts s t) (hg : ∀ j, (s.heap j).Grows (s'.heap j)) {c : ContextId}
    (hx : s.contexts c = some x) (hv : t c = some v) {tid : ThreadId} {l : LocalId} {a : Nat} {d : Attrs (l.Attr U)}
    (ha : (s'.heap (.shared l)).read a = some d)
    (hcontexts : s'.contexts = Function.update s.contexts c
      (some { x with refs := Function.update x.refs (.shared l) (some ⟨tid, a⟩) })) :
    Abstracts s' (Function.update t c (some (v.setData l ⟨tid, d⟩))) := by
  obtain ⟨hclosed, w, hw, hrep⟩ := h.present c x hx
  cases hv.symm.trans hw
  have hrep' := hrep.grows hclosed hg
  refine h.update hg hcontexts ((hclosed.grows hg).setRef ha) ⟨fun y => ?_, fun k => ?_⟩
  · rw [Context.lookup_setData_ne v _ (by cases y <;> nofun)]
    exact hrep'.plain y
  · by_cases hk : k = l
    · subst hk
      rw [Context.data_setData]
      simp only [Function.update_self, Option.map_some, dict_of_read ha]
    · have hne : CVarId.shared k ≠ .shared l := by simpa using hk
      rw [Context.data_setData_ne v _ hk, hrep'.data k]
      simp only [Function.update_of_ne hne]

/-- The variable of a thread-critical `Local` is not in the values. -/
theorem Abstracts.setRef_critical (h : Abstracts s t) (hg : ∀ j, (s.heap j).Grows (s'.heap j)) {c : ContextId}
    (hx : s.contexts c = some x) {tid u : ThreadId} {n : Nat} {a : Nat} {d : Attrs U}
    (ha : (s'.heap (.critical n u)).read a = some d)
    (hcontexts : s'.contexts = Function.update s.contexts c
      (some { x with refs := Function.update x.refs (.critical n u) (some ⟨tid, a⟩) })) : Abstracts s' t := by
  obtain ⟨hclosed, v, hv, hrep⟩ := h.present c x hx
  have hrep' := hrep.grows hclosed hg
  have hsame : Function.update t c (some v) = t := by rw [← hv, Function.update_eq_self]
  rw [← hsame]
  refine h.update hg hcontexts ((hclosed.grows hg).setRef ha) ⟨hrep'.plain, fun k => ?_⟩
  have hne : CVarId.shared k ≠ .critical n u := by nofun
  rw [hrep'.data k]
  simp only [Function.update_of_ne hne]

theorem Abstracts.sets (h : Abstracts s t) {c : ContextId} {tid : ThreadId} {l : LocalId} {d : Attrs (l.Attr U)}
    (hx : s.contexts c = some x) (hv : t c = some v) (hs : Sets s s' c x tid (.shared l) d) :
    Abstracts s' (Function.update t c (some (v.setData l ⟨tid, d⟩))) := by
  obtain ⟨a, ha, hcontexts⟩ := hs.contexts
  exact h.setRef hs.grows hx hv ha hcontexts

theorem Abstracts.sets_critical (h : Abstracts s t) {c : ContextId} {tid u : ThreadId} {n : Nat} {d : Attrs U}
    (hx : s.contexts c = some x) (hs : Sets s s' c x tid (.critical n u) d) : Abstracts s' t := by
  obtain ⟨a, ha, hcontexts⟩ := hs.contexts
  exact h.setRef_critical hs.grows hx ha hcontexts

/-! ### The step lemma -/

theorem same_ensureCVar (s : State U) (tid : ThreadId) (n : Nat) : Same s (s.ensureCVar tid n) :=
  ⟨rfl, rfl, fun _ => Heap.Grows.refl _⟩

theorem same_setThreadLocal (s : State U) (tid : ThreadId) (n : Nat) (d : Attrs U) :
    Same s (s.setThreadLocal tid n d) := ⟨rfl, rfl, fun _ => Heap.Grows.refl _⟩

/-- A read makes new dictionaries at most. -/
theorem same_readLocal (s : State U) (x : HeapContext U) (tid : ThreadId) (running : Bool) (l : LocalRef)
    (key : String) : Same s (readLocal s x tid running l key).1 := by
  cases l with
  | shared l =>
    simp only [readLocal]
    split
    · exact .refl s
    · exact (getattr_spec s x tid _ key).1
  | critical n =>
    simp only [readLocal]
    split
    · exact .refl s
    · split
      · exact (same_ensureCVar s tid n).trans (getattr_spec _ x tid _ key).1
      · split <;> exact .refl s

theorem Abstracts.write (h : Abstracts s t) {c : ContextId} (hx : s.contexts c = some x) (tid : ThreadId)
    (running : Bool) (l : LocalRef) (key : String) (w : l.Attr U) (vars : UserVars U) :
    Abstracts (writeLocal s c x tid running l key w) (valueStep vars t (.write c tid running l key w)) := by
  obtain ⟨-, v, hv, hrep⟩ := h.present c x hx
  by_cases hkey : key ∈ onObject
  · have hsame : valueStep vars t (.write c tid running l key w) = t := by
      cases l with
      | shared l => exact if_pos hkey
      | critical n => rfl
    rw [hsame]
    unfold writeLocal
    rw [if_pos hkey]
    exact h.congr rfl fun _ => Heap.Grows.refl _
  · unfold writeLocal
    rw [if_neg hkey]
    cases l with
    | shared l =>
      have hsets := h.sets hx hv (setattr_spec s c x tid (.shared l) key w)
      rw [hrep.seen] at hsets
      simp only [valueStep, if_neg hkey, Values.modify, hv, Option.map_some]
      exact hsets
    | critical n =>
      cases running with
      | true =>
        have h' := h.same (same_ensureCVar s tid n)
        exact h'.sets_critical hx (setattr_spec (s.ensureCVar tid n) c x tid (.critical n tid) key w)
      | false => exact h.same (same_setThreadLocal s tid n _)

theorem Abstracts.delete (h : Abstracts s t) {c : ContextId} (hx : s.contexts c = some x) (tid : ThreadId)
    (running : Bool) (l : LocalRef) (key : String) (vars : UserVars U) :
    Abstracts (deleteLocal s c x tid running l key).1 (valueStep vars t (.delete c tid running l key)) := by
  obtain ⟨-, v, hv, hrep⟩ := h.present c x hx
  cases l with
  | shared l =>
    simp only [valueStep, Values.modify, hv, Option.map_some, Context.delattr]
    obtain ⟨hsome, -, hsets⟩ | ⟨hnone, -, hsame⟩ := delattr_spec s c x tid (.shared l) key
    · have hupdate := h.sets hx hv hsets
      rw [hrep.seen] at hsome hupdate
      obtain ⟨w, hw⟩ := Option.isSome_iff_exists.1 hsome
      rw [hw]
      exact hupdate
    · rw [hrep.seen] at hnone
      rw [hnone, ← hv, Function.update_eq_self]
      exact h.same hsame
  | critical n =>
    cases running with
    | true =>
      have h' := h.same (same_ensureCVar s tid n)
      obtain ⟨-, -, hsets⟩ | ⟨-, -, hsame⟩ := delattr_spec (s.ensureCVar tid n) c x tid (.critical n tid) key
      · exact h'.sets_critical hx hsets
      · exact h'.same hsame
    | false =>
      simp only [valueStep, deleteLocal]
      split
      · cases ‹false = true›
      · split
        · exact h.same (same_setThreadLocal s tid n _)
        · exact h

variable {vars : UserVars U}

/-- The loop of `_restore_context` at the variable of a `Local`. -/
theorem restored_data {tid : ThreadId} {l : LocalId} {src cur : Context U} {st : Storage (l.Attr U)}
    (h : src.data l = some st) : restored vars tid (.data l) src cur = cur.setData l (rehome tid st) := by
  have hset : restoreVar vars tid (.data l) st (cur.lookup (.data l)) = .ok (some (rehome tid st)) := by
    cases cur.lookup (.data l) <;> rfl
  unfold restored
  rw [show src.lookup (.data l) = some st from h]
  simp only [hset]
  rfl

theorem Abstracts.restoreRef (h : Abstracts s t) {c context : ContextId} {y : HeapContext U} {tid : ThreadId}
    {i : CVarId} {st : Ref} (hx : s.contexts c = some x) (hy : s.contexts context = some y) (hst : y.refs i = some st) :
    Abstracts (Local.restoreRef s c x tid i st) (valueStep vars t (.restoreRef c context tid i)) := by
  obtain ⟨-, v, hv, -⟩ := h.present c x hx
  obtain ⟨hclosed, w, hw, hrep⟩ := h.present context y hy
  obtain ⟨d, hd⟩ := Option.isSome_iff_exists.1 (hclosed i st hst)
  cases i with
  | shared l =>
    have hdata : w.data l = some ⟨st.threadId, d⟩ := by
      rw [hrep.data l, hst, Option.map_some, dict_of_read hd]
    simp only [valueStep, Values.modify, hv, hw, Option.map_some, restored_data hdata]
    exact h.setRef (grows_setContext s c _) hx hv hd rfl
  | critical n u => exact h.setRef_critical (grows_setContext s c _) hx hd rfl

theorem toVar_injective {v w : PlainVar} (h : v.toVar = w.toVar) : v = w := by
  cases v <;> cases w <;> first | rfl | cases h <;> rfl

/-- A variable that is not that of a `_CVar` is set. -/
theorem Abstracts.setPlain (h : Abstracts s t) {c : ContextId} (hx : s.contexts c = some x) (hv : t c = some v)
    (y : PlainVar) (w : y.toVar.Value U) :
    Abstracts (s.setContext c { x with plain := Function.update x.plain y (some w) })
      (Function.update t c (some (AList.insert y.toVar w v))) := by
  obtain ⟨hclosed, v', hv', hrep⟩ := h.present c x hx
  cases hv.symm.trans hv'
  refine h.update (grows_setContext s c _) rfl hclosed ⟨fun z => ?_, fun l => ?_⟩
  · by_cases hz : z = y
    · subst hz
      simp only [AList.lookup_insert, Function.update_self]
    · rw [AList.lookup_insert_ne fun he => hz (toVar_injective he), hrep.plain z]
      simp only [Function.update_of_ne hz]
  · show AList.lookup (.data l) (AList.insert y.toVar w v) = _
    rw [AList.lookup_insert_ne (by cases y <;> nofun)]
    exact hrep.data l

theorem Abstracts.restorePlain (h : Abstracts s t) {c context : ContextId} {y : HeapContext U} (tid : ThreadId)
    {z : PlainVar} {w : z.toVar.Value U} (hx : s.contexts c = some x) (hy : s.contexts context = some y)
    (hw : y.plain z = some w) :
    Abstracts (Local.restorePlain s c x tid vars z w).1 (valueStep vars t (.restorePlain c context tid z)) := by
  obtain ⟨-, v, hv, hrep⟩ := h.present c x hx
  obtain ⟨-, u, hu, hrep'⟩ := h.present context y hy
  have hlookup : u.lookup z.toVar = some w := by rw [hrep'.plain z, hw]
  have hself : Function.update t c (some v) = t := by rw [← hv, Function.update_eq_self]
  simp only [valueStep, Values.modify, hv, hu, Option.map_some, restored, hlookup, hrep.plain z]
  unfold Local.restorePlain
  cases hr : restoreVar vars tid z.toVar w (x.plain z) with
  | error e =>
    simp only [hself]
    exact h
  | ok o =>
    cases o with
    | none =>
      simp only [hself]
      exact h
    | some w' => exact h.setPlain hx hv z w'

/-- **The step lemma.**  What the references come to changes as the values do. -/
theorem abstracts_perform {a : Action U} {r : Option Exn} (h : Abstracts s t) (hp : perform vars s a = some (s', r)) :
    Abstracts s' (valueStep vars t a) := by
  cases performs_of_perform hp with
  | @start new => exact h.update (grows_setContext s new {}) rfl nofun ⟨fun _ => rfl, fun _ => rfl⟩
  | @copy c new x hx =>
    obtain ⟨hclosed, v, hv, hrep⟩ := h.present c x hx
    simp only [valueStep, hv]
    exact h.update (grows_setContext s new x) rfl hclosed ⟨hrep.plain, hrep.data⟩
  | @setVar c x y w hx =>
    obtain ⟨-, v, hv, -⟩ := h.present c x hx
    simp only [valueStep, Values.modify, hv, Option.map_some]
    exact h.setPlain hx hv y w
  | read => exact h.same (same_readLocal ..)
  | write hx => exact h.write hx _ _ _ _ _ vars
  | delete hx => exact h.delete hx _ _ _ _ vars
  | restoreRef hx hy hst => exact h.restoreRef hx hy hst
  | restorePlain _ _ hx hy hw => exact h.restorePlain _ hx hy hw

/-! ### Isolation -/

/-- What the values show. -/
def Values.shows (t : Values U) (s : State U) (c : ContextId) (tid : ThreadId) (l : LocalId) (key : String) :
    Option (Result (l.Attr U)) :=
  (t c).map fun v =>
    match s.object (.shared l) key with
    | some w => .ok w
    | none => v.getattr tid l key

/-- **What code finds is what the context as a value has.** -/
theorem Abstracts.shows (h : Abstracts s t) (c : ContextId) (tid : ThreadId) (l : LocalId) (key : String) :
    s.shows c tid l key = t.shows s c tid l key := by
  unfold State.shows Values.shows
  cases hx : s.contexts c with
  | none => rw [h.absent c hx]; rfl
  | some x =>
    obtain ⟨-, v, hv, hrep⟩ := h.present c x hx
    rw [hv, Option.map_some, Option.map_some]
    cases ho : s.object (.shared l) key with
    | some w => simp only [readLocal, ho]
    | none =>
      simp only [readLocal, ho, Context.getattr, (getattr_spec s x tid (.shared l) key).2, hrep.seen]
      cases (v.storage tid l).data key <;> rfl

theorem Values.shows_congr {t' : Values U} {c c' : ContextId} (hobject : s'.object = s.object) (h : t' c' = t c)
    (tid : ThreadId) (l : LocalId) (key : String) : t'.shows s' c' tid l key = t.shows s c tid l key := by
  unfold Values.shows
  rw [h, hobject]

/-- The attribute is none under whose name the code keeps something of its own. -/
def Action.Usable : Action U → Prop
  | .read _ _ _ _ key | .write _ _ _ _ key _ | .delete _ _ _ _ key => key ∉ onObject ∧ key ∉ ownParts
  | _ => True

theorem object_delattr (s : State U) (c : ContextId) (x : HeapContext U) (tid : ThreadId) (i : CVarId) (key : String) :
    (delattr s c x tid i key).1.object = s.object := by
  obtain ⟨-, -, hsets⟩ | ⟨-, -, hsame⟩ := delattr_spec s c x tid i key
  · exact hsets.object
  · exact hsame.object

/-- Nothing is stored on the objects. -/
theorem object_perform {a : Action U} {r : Option Exn} (ha : a.Usable) (hp : perform vars s a = some (s', r)) :
    s'.object = s.object := by
  cases performs_of_perform hp with
  | start => rfl
  | copy => rfl
  | setVar => rfl
  | read => exact (same_readLocal ..).object
  | @write c tid running l key w x hx =>
    unfold writeLocal
    rw [if_neg ha.1]
    cases l with
    | shared l => exact (setattr_spec s c x tid (.shared l) key w).object
    | critical n =>
      cases running with
      | true => exact (setattr_spec (s.ensureCVar tid n) c x tid (.critical n tid) key w).object
      | false => rfl
  | @delete c tid running l key x hx =>
    cases l with
    | shared l => exact object_delattr s c x tid _ key
    | critical n =>
      simp only [deleteLocal]
      split
      · exact object_delattr (s.ensureCVar tid n) c x tid _ key
      · split <;> rfl
  | restoreRef => rfl
  | restorePlain =>
    unfold Local.restorePlain
    split <;> rfl

/-- A `__delattr__` that raises makes new dictionaries at most. -/
theorem same_of_raised_delattr {s : State U} {c : ContextId} {x : HeapContext U} {tid : ThreadId} {i : CVarId}
    {key : String} {e : Exn} (h : (delattr s c x tid i key).2 = some e) : Same s (delattr s c x tid i key).1 := by
  obtain ⟨-, hnone, -⟩ | ⟨-, -, hsame⟩ := delattr_spec s c x tid i key
  · rw [hnone] at h
    cases h
  · exact hsame

theorem same_of_raised_deleteLocal {s : State U} {c : ContextId} {x : HeapContext U} {tid : ThreadId} {running : Bool}
    {l : LocalRef} {key : String} {e : Exn} (h : (deleteLocal s c x tid running l key).2 = some e) :
    Same s (deleteLocal s c x tid running l key).1 := by
  cases l with
  | shared l => exact same_of_raised_delattr h
  | critical n =>
    simp only [deleteLocal] at h ⊢
    by_cases hrun : running
    · rw [if_pos hrun] at h ⊢
      exact (same_ensureCVar s tid n).trans (same_of_raised_delattr h)
    · rw [if_neg hrun] at h ⊢
      cases hk : s.threadLocal n tid key with
      | some v =>
        rw [hk] at h
        cases h
      | none => exact .refl s

/-- An access that raises makes new dictionaries at most. -/
theorem same_of_raised {a : Action U} {e : Exn} (hp : perform vars s a = some (s', some e)) : Same s s' := by
  generalize hr : some e = r at hp
  cases performs_of_perform hp with
  | start => cases hr
  | copy => cases hr
  | setVar => cases hr
  | read => exact same_readLocal ..
  | write => cases hr
  | delete => exact same_of_raised_deleteLocal hr.symm
  | restoreRef => cases hr
  | restorePlain =>
    unfold Local.restorePlain at hr ⊢
    split at hr
    · cases hr
    · cases hr
    · exact .refl s

end

/-- The action leaves the contexts isolated. -/
structure Isolated (s : State U) (a : Action U) (s' : State U) (r : Option Exn) : Prop where
  /-- what the other contexts show stays -/
  others : ∀ c, (s.contexts c).isSome = true → c ≠ a.context → ∀ tid l key,
    s'.shows c tid l key = s.shows c tid l key
  /-- a copy shows what its original showed -/
  copied : ∀ c new, a = .copy c new → ∀ tid l key, s'.shows new tid l key = s.shows c tid l key
  /-- an access that raises changes no context -/
  raised : r = some .attributeError → s'.contexts = s.contexts ∧ ∀ c tid l key,
    s'.shows c tid l key = s.shows c tid l key

section

variable {vars : UserVars U} {s s' : State U} {t : Values U}

theorem isolated_of_abstracts {a : Action U} {r : Option Exn} (h : Abstracts s t) (ha : a.Usable)
    (hp : perform vars s a = some (s', r)) : Isolated s a s' r := by
  have h' := abstracts_perform h hp
  have hobject := object_perform ha hp
  refine ⟨fun c hc hne tid l key => ?_, ?_, ?_⟩
  · rw [h'.shows, h.shows]
    refine Values.shows_congr hobject (valueStep_of_ne vars t hne ?_) tid l key
    rintro b rfl
    simp only [perform, Option.bind_eq_bind, Option.bind_eq_some_iff, Option.ite_none_right_eq_some] at hp
    obtain ⟨x, -, hnone, -⟩ := hp
    rw [Option.isNone_iff_eq_none.1 hnone] at hc
    cases hc
  · rintro c new rfl tid l key
    rw [h'.shows, h.shows]
    exact Values.shows_congr hobject (Function.update_self ..) tid l key
  · rintro rfl
    have hsame := same_of_raised hp
    refine ⟨hsame.contexts, fun c tid l key => ?_⟩
    rw [(h.same hsame).shows, h.shows]
    exact Values.shows_congr hobject rfl tid l key

/-- Every run keeps values to which the references come. -/
theorem exists_abstracts {as : List (Action U)} (hrun : (machine vars).run State.init as = some s) :
    ∃ t, Abstracts s t := by
  refine (machine vars).run_invariant (I := fun s => ∃ t, Abstracts s t) ?_ ⟨_, abstracts_init⟩ hrun
  rintro s a s' ⟨t, h⟩ hs
  obtain ⟨⟨u, r⟩, hp, rfl⟩ := Option.map_eq_some_iff.1 hs
  exact ⟨_, abstracts_perform h hp⟩

/-- **Contexts are isolated from each other.**  In every run, an operation on an attribute under whose name the code
keeps nothing of its own leaves alone what every other context shows; a copy shows what its original showed; and
an access that raises `AttributeError` changes no context. -/
theorem isolated {as : List (Action U)} (hrun : (machine vars).run State.init as = some s) {a : Action U}
    {r : Option Exn} (ha : a.Usable) (hp : perform vars s a = some (s', r)) : Isolated s a s' r := by
  obtain ⟨t, h⟩ := exists_abstracts hrun
  exact isolated_of_abstracts h ha hp

end

/-- An attribute is written, and the context copied. -/
def written : List (Action Nat) := [.write 0 0 false (.shared (.user 0)) "a" 7, .copy 0 1]

/-- The original writes the attribute once more. -/
theorem isolated_write : ∃ s s', (machine numbers).run State.init written = some s ∧
    s'.shows 1 0 (.user 0) "a" = some (.ok 7) ∧ s'.shows 0 0 (.user 0) "a" = some (.ok 8) ∧
    Isolated s (.write 0 0 false (.shared (.user 0)) "a" 8) s' none :=
  ⟨_, _, rfl, rfl, rfl, @isolated Nat numbers _ _ written rfl _ _ (by simp [Action.Usable, onObject, ownParts]) rfl⟩

/-- The name `_local` is stored on the object, and so in all contexts. -/
theorem local_shown_to_all : ∃ s s' : State Nat, (machine numbers).run State.init [.copy 0 1] = some s ∧
    perform numbers s (.write 0 0 false (.shared (.user 0)) "_local" 7) = some (s', none) ∧
    s.shows 1 0 (.user 0) "_local" = some (.error .attributeError) ∧
    s'.shows 1 0 (.user 0) "_local" = some (.ok 7) :=
  ⟨_, _, rfl, rfl, rfl, rfl⟩

end Asgiref.Local
