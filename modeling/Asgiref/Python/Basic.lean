import Mathlib.Tactic.Lemma

/-!
The parts of the Python run time that every other module speaks about: thread identifiers, the classes of
exceptions the modelled code tells apart, and what a call ends with.
-/

namespace Asgiref.Python

/-- What `threading.get_ident()` returns; also the identity of `threading.current_thread()`. -/
abbrev ThreadId := Nat

/-- The exceptions the modelled code tells apart.  `other` stands for every class it does not name. -/
inductive Exn where
  | lookupError
  | attributeError
  | indexError
  | keyError
  | valueError (msg : String)
  | typeError (msg : String)
  | runtimeError (msg : String)
  | invalidStateError
  | cancelledError
  | other (id : Nat)
  deriving DecidableEq

/-- What `except LookupError` catches: the class itself and its subclasses `IndexError` and `KeyError`. -/
def Exn.isLookupError : Exn → Bool
  | .lookupError | .indexError | .keyError => true
  | _ => false

/-- What `except ValueError` catches: the class itself and the errors of the codecs. -/
def Exn.isValueError : Exn → Bool
  | .valueError _ => true
  | _ => false

/-- How a call ends: with a value, or with any `BaseException`. -/
abbrev Result (R : Type) := Except Exn R

/-- What becomes of the exception that ends a body, on its way to the code that waits for the body. -/
structure Passage (E : Type) where
  /-- What leaves a coroutine: `RuntimeError` for `StopIteration`, other exceptions as they are. -/
  coroutine : E → E
  /-- What the future of `run_in_executor` ends with, if it is resolved at all: `StopIteration` cannot be set in it, and
  where the function has raised a class of `concurrent.futures`, it has the one of `asyncio`. -/
  future : E → Option E

namespace Passage

variable {E V : Type} (p : Passage E)

/-- What awaiting the coroutine yields whose body has ended with `r`. -/
def awaited : Except E V → Except E V
  | .ok v => .ok v
  | .error e => .error (p.coroutine e)

/-- What the awaiter of `run_in_executor` ends with, itself a coroutine, if it goes on. -/
def arrived : Except E V → Option (Except E V)
  | .ok v => some (.ok v)
  | .error e => (p.future e).map fun e => .error (p.coroutine e)

/-- Every exception arrives as it is. -/
def plain : Passage E := ⟨id, some⟩

end Passage

/-- A call and what follows it end with a value iff both do. -/
theorem bind_eq_ok {R S : Type} {x : Result R} {f : R → Result S} {b : S} :
    (x >>= f) = .ok b ↔ ∃ a, x = .ok a ∧ f a = .ok b := by
  cases x with
  | ok a => exact ⟨fun h => ⟨a, rfl, h⟩, fun ⟨_, h, h'⟩ => by cases h; exact h'⟩
  | error e => exact ⟨nofun, fun ⟨_, h, _⟩ => nomatch h⟩

/-- Calls for the members of a list, one after the other, end with values iff each of them does. -/
theorem mapM_cons_eq_ok {R S : Type} {f : R → Result S} {a : R} {l : List R} {bs : List S} :
    (a :: l).mapM f = .ok bs ↔ ∃ b rest, f a = .ok b ∧ l.mapM f = .ok rest ∧ bs = b :: rest := by
  simp only [List.mapM_cons, bind_eq_ok, pure, Except.pure, Except.ok.injEq]
  constructor
  · rintro ⟨b, hb, rest, hrest, rfl⟩
    exact ⟨b, rest, hb, hrest, rfl⟩
  · rintro ⟨b, rest, hb, hrest, rfl⟩
    exact ⟨b, hb, rest, hrest, rfl⟩

/-- The call raises a `ValueError`. -/
def RaisesValueError {R : Type} (x : Result R) : Prop := ∃ e, x = .error e ∧ e.isValueError = true

theorem not_raisesValueError_ok {R : Type} (a : R) : ¬ RaisesValueError (.ok a : Result R) := fun ⟨_, h, _⟩ => nomatch h

/-- A call and what follows it raise a `ValueError` iff one of them does. -/
theorem raisesValueError_bind {R S : Type} {x : Result R} {f : R → Result S} :
    RaisesValueError (x >>= f) ↔ RaisesValueError x ∨ ∃ a, x = .ok a ∧ RaisesValueError (f a) := by
  cases x with
  | ok a =>
    refine ⟨fun h => .inr ⟨a, rfl, h⟩, fun h => ?_⟩
    obtain h | ⟨b, h, hf⟩ := h
    · exact absurd h (not_raisesValueError_ok a)
    · cases h
      exact hf
  | error e =>
    refine ⟨fun ⟨e', h, he⟩ => .inl ⟨e, rfl, by cases h; exact he⟩, fun h => ?_⟩
    obtain ⟨e', h, he⟩ | ⟨b, h, -⟩ := h
    · cases h
      exact ⟨e, rfl, he⟩
    · cases h

instance {R : Type} [DecidableEq R] : DecidableEq (Result R)
  | .ok a, .ok b => decidable_of_iff (a = b) (by rw [Except.ok.injEq])
  | .error e, .error f => decidable_of_iff (e = f) (by rw [Except.error.injEq])
  | .ok _, .error _ => isFalse nofun
  | .error _, .ok _ => isFalse nofun

end Asgiref.Python
