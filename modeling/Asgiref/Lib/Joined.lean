import Mathlib.Data.List.Basic

/-!
# Lists joined with a separator

* `joined`: the elements of a list joined with a separator, nothing for the empty list;
* `joined_sublist_inj`: a part of the list that is joined to the same as the whole is the whole;
* `joined_filter_inj`: the same for the elements with a property;
* `joined_eq_joined_iff`: two separators of different lengths.
-/

namespace Asgiref.Lib

universe u v

variable {α : Type u}

/-- `sep.join(xs)`, where there is something to join. -/
def joined (sep : List α) (xs : List (List α)) : Option (List α) :=
  if xs.isEmpty then none else some (sep.intercalate xs)

/-- The length of the list when each element is followed by a separator. -/
def joinedLength (n : Nat) : List (List α) → Nat
  | [] => 0
  | x :: xs => x.length + n + joinedLength n xs

@[simp] theorem joined_nil (sep : List α) : joined sep [] = none := rfl

@[simp] theorem joined_singleton (sep : List α) (x : List α) : joined sep [x] = some x := by simp [joined]

theorem length_intercalate (sep : List α) {xs : List (List α)} (h : xs ≠ []) :
    (sep.intercalate xs).length + sep.length = joinedLength sep.length xs := by
  induction xs with
  | nil => exact absurd rfl h
  | cons x xs ih =>
    cases xs with
    | nil => simp [joinedLength]
    | cons y ys =>
      have ih' := ih (List.cons_ne_nil y ys)
      rw [List.intercalate_cons_cons, joinedLength, ← ih', List.length_append, List.length_append]
      omega

theorem joinedLength_sublist {n : Nat} (hn : 0 < n) {xs ys : List (List α)} (h : xs.Sublist ys) :
    joinedLength n xs + ys.length ≤ joinedLength n ys + xs.length := by
  induction h with
  | slnil => exact Nat.le_refl _
  | cons a _ ih =>
    simp only [joinedLength, List.length_cons]
    omega
  | cons_cons a _ ih =>
    simp only [joinedLength, List.length_cons]
    omega

theorem joinedLength_of_joined_eq {sep : List α} {xs ys : List (List α)} (h : joined sep xs = joined sep ys) :
    joinedLength sep.length xs = joinedLength sep.length ys := by
  cases xs with
  | nil =>
    cases ys with
    | nil => rfl
    | cons y ys => cases h
  | cons x xs =>
    cases ys with
    | nil => cases h
    | cons y ys =>
      rw [← length_intercalate sep (List.cons_ne_nil x xs), ← length_intercalate sep (List.cons_ne_nil y ys),
        Option.some.inj h]

/-- **Nothing is lost unseen.**  What a part is joined to tells it from the whole. -/
theorem joined_sublist_inj {sep : List α} (hsep : sep ≠ []) {xs ys : List (List α)} (h : xs.Sublist ys) :
    joined sep xs = joined sep ys ↔ xs = ys := by
  refine ⟨fun hj => h.eq_of_length_le ?_, fun he => by rw [he]⟩
  have hle := joinedLength_sublist (List.length_pos_iff.2 hsep) h
  rw [joinedLength_of_joined_eq hj] at hle
  omega

/-- **The elements with a property**, where one property is weaker. -/
theorem joined_filter_inj {β : Type v} {sep : List α} (hsep : sep ≠ []) {p q : β → Bool} (f : β → List α) {l : List β}
    (h : ∀ x ∈ l, p x = true → q x = true) :
    joined sep ((l.filter p).map f) = joined sep ((l.filter q).map f) ↔ ∀ x ∈ l, q x = true → p x = true := by
  have hsub : (l.filter p).Sublist (l.filter q) := by
    have hfilter : l.filter p = (l.filter q).filter p := by
      rw [List.filter_filter]
      refine List.filter_congr fun x hx => ?_
      cases hp : p x with
      | true => rw [h x hx hp]; rfl
      | false => rfl
    rw [hfilter]
    exact List.filter_sublist
  rw [joined_sublist_inj hsep (hsub.map f)]
  constructor
  · intro he x hx hq
    have hlen : (l.filter q).length ≤ (l.filter p).length := by
      have hmap := congrArg List.length he
      rw [List.length_map, List.length_map] at hmap
      exact Nat.le_of_eq hmap.symm
    have hmem : x ∈ l.filter p := by
      rw [hsub.eq_of_length_le hlen]
      exact List.mem_filter.2 ⟨hx, hq⟩
    exact (List.mem_filter.1 hmem).2
  · intro hback
    rw [List.filter_congr fun x hx => Bool.eq_iff_iff.2 ⟨h x hx, hback x hx⟩]

theorem joinedLength_lt {m n : Nat} (hmn : m < n) (x : List α) (xs : List (List α)) :
    joinedLength m (x :: xs) + (xs.length + 1) ≤ joinedLength n (x :: xs) := by
  induction xs generalizing x with
  | nil =>
    simp only [joinedLength, List.length_nil]
    omega
  | cons y ys ih =>
    have ih' := ih y
    simp only [joinedLength, List.length_cons] at ih' ⊢
    omega

/-- **Two separators** of lengths that differ by one. -/
theorem joined_eq_joined_iff {s t : List α} (h : s.length + 1 = t.length) (xs : List (List α)) :
    joined s xs = joined t xs ↔ xs.length ≤ 1 := by
  match xs with
  | [] => simp
  | [x] => simp
  | x :: y :: ys =>
    refine ⟨fun hj => ?_, fun hle => absurd hle (by simp)⟩
    have hlen := congrArg List.length (Option.some.inj hj)
    have hs := length_intercalate s (List.cons_ne_nil x (y :: ys))
    have ht := length_intercalate t (List.cons_ne_nil x (y :: ys))
    have hlt := joinedLength_lt (Nat.lt_of_succ_le (Nat.le_of_eq h)) x (y :: ys)
    simp only [List.length_cons] at hlt ⊢
    omega

end Asgiref.Lib
