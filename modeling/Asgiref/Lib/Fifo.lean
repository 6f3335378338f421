import Asgiref.Lib.Simulation

/-!
# Channels

Any number of unbounded queues, known by their names.  What is put into one of them is taken out of it in the same
order, each item once, and never out of another one.

* `ChannelEvent`, `Fifo`, `FifoStep` — what happens to the queues, and what they hold then;
* `puts`, `gets` — the items of one channel;
* `fifo_run` — what was taken, with what is still there, is what was put;
* `fifo_of_simulates` — the same for a machine that uses channels;
* `happened_of_mem_puts` — where an item comes from.
-/

namespace Asgiref.Lib

universe u v w x

variable {ι : Type u} {α : Type v}

inductive ChannelEvent (ι : Type u) (α : Type v) where
  | put (i : ι) (a : α)
  | get (i : ι) (a : α)

/-- What an event does to the queues. -/
inductive Fifo : (ι → List α) → ChannelEvent ι α → (ι → List α) → Prop
  | put {q q' : ι → List α} {i : ι} {a : α} : q' i = q i ++ [a] → (∀ j, j ≠ i → q' j = q j) → Fifo q (.put i a) q'
  | get {q q' : ι → List α} {i : ι} {a : α} : q i = a :: q' i → (∀ j, j ≠ i → q' j = q j) → Fifo q (.get i a) q'

/-- What a step does to the queues; one without an event leaves them alone. -/
def FifoStep (q : ι → List α) (e : Option (ChannelEvent ι α)) (q' : ι → List α) : Prop :=
  match e with
  | none => q' = q
  | some e => Fifo q e q'

variable [DecidableEq ι]

/-- What was put into the channel. -/
def puts (i : ι) : List (ChannelEvent ι α) → List α
  | [] => []
  | .put j a :: es => if j = i then a :: puts i es else puts i es
  | .get _ _ :: es => puts i es

/-- What was taken out of the channel. -/
def gets (i : ι) : List (ChannelEvent ι α) → List α
  | [] => []
  | .get j a :: es => if j = i then a :: gets i es else gets i es
  | .put _ _ :: es => gets i es

theorem puts_append (i : ι) (es es' : List (ChannelEvent ι α)) : puts i (es ++ es') = puts i es ++ puts i es' := by
  induction es with
  | nil => rfl
  | cons e es ih =>
    cases e with
    | put j a => by_cases hj : j = i <;> simp [puts, hj, ih]
    | get j a => simpa [puts] using ih

/-- **First in, first out.** -/
theorem fifo_run {q q' : ι → List α} {es : List (ChannelEvent ι α)} (h : Steps Fifo q es q') (i : ι) :
    q i ++ puts i es = gets i es ++ q' i := by
  induction h with
  | nil => exact List.append_nil _
  | @cons q q₁ q' e es hstep _ ih =>
    cases hstep with
    | @put _ j a hq hother =>
      by_cases hj : j = i
      · subst hj
        simpa [puts, gets, hq] using ih
      · rw [hother i (Ne.symm hj)] at ih
        simpa [puts, gets, hj] using ih
    | @get _ j a hq hother =>
      by_cases hj : j = i
      · subst hj
        simp [puts, gets, hq, ih]
      · rw [hother i (Ne.symm hj)] at ih
        simpa [puts, gets, hj] using ih

variable {S : Type w} {A : Type x}

/-- **Machines with channels.**  Where every step does to the queues what its event does, every run is first in,
first out. -/
theorem fifo_of_simulates (M : Machine S A) (queues : S → ι → List α) (visible : S → A → Option (ChannelEvent ι α))
    (h : ∀ s a s', M.step s a = some s' → FifoStep (queues s) (visible s a) (queues s'))
    {s s' : S} {as : List A} (hrun : M.run s as = some s') (i : ι) :
    queues s i ++ puts i (M.trace visible s as) = gets i (M.trace visible s as) ++ queues s' i := by
  have hsim : M.Simulates Fifo visible (fun s q => q = queues s) := by
    rintro s a s' _ rfl hstep
    have hq := h s a s' hstep
    cases hv : visible s a with
    | none =>
      rw [hv] at hq
      exact hq.symm
    | some e =>
      rw [hv] at hq
      exact ⟨queues s', hq, rfl⟩
  obtain ⟨q', hsteps, rfl⟩ := hsim.run rfl hrun
  exact fifo_run hsteps i

/-- What was put into a channel was put there by a step. -/
theorem happened_of_mem_puts {M : Machine S A} {visible : S → A → Option (ChannelEvent ι α)} {s : S} {as : List A}
    {i : ι} {a : α} (h : a ∈ puts i (M.trace visible s as)) :
    M.Happened s (fun t b => visible t b = some (.put i a)) as := by
  induction as generalizing s with
  | nil => cases h
  | cons b as ih =>
    rw [Machine.trace] at h
    cases hs : M.step s b with
    | none =>
      rw [hs] at h
      cases h
    | some t =>
      rw [hs] at h
      dsimp only at h
      rw [puts_append, List.mem_append] at h
      obtain h | h := h
      · refine ⟨[], b, as, s, rfl, rfl, ?_⟩
        cases hv : visible s b with
        | none =>
          rw [hv] at h
          cases h
        | some e =>
          rw [hv] at h
          cases e with
          | get j c => cases h
          | put j c =>
            simp only [Option.toList, puts] at h
            split at h
            · next hj =>
              rw [hv, hj, List.mem_singleton.1 h]
            · cases h
      · obtain ⟨as₁, c, as₂, u, rfl, hu, hv⟩ := ih h
        exact ⟨b :: as₁, c, as₂, u, rfl, M.run_cons_eq_some.2 ⟨t, hs, hu⟩, hv⟩

end Asgiref.Lib
