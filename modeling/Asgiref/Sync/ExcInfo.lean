import Asgiref.Lib.Diverges
import Asgiref.Python.Basic

/-!
# `sys.exc_info()` in wrapped functions

Code that handles exceptions, calls wrapped functions and starts tasks, run twice: with every call as `main_wrap` and
`thread_handler` make it, which raise the exception of their caller again and call the function in the `except` block,
and with every call a direct one, which finds what its caller handles.

* `Code`, `exec` — the code, and a run of it by how its calls are made (`Ways`): what a function finds, and what comes of
  an exception that ends it;
* `wrapped`, `direct` — the two ways; `populated` is what a function finds in `main_wrap` and `thread_handler`;
* `AtCalls`, `alike_iff` — two ways make the same of a run iff they make the same of all its calls;
* `populated_iff` — when `sys.exc_info()` is correctly populated;
* `populated_of_truthy` — it is where all exceptions are true, futures carry them as they are, and no task is started.
-/

namespace Asgiref.Sync.ExcInfo

open Asgiref.Python (Passage)
open Asgiref.Lib

/-- How a function is called, from sync or from async code. -/
inductive Call where
  /-- `async_to_sync(body)()`, on a new loop or on the one the thread was called from -/
  | asyncToSync (newLoop : Bool)
  /-- `await sync_to_async(body, thread_sensitive)()` -/
  | syncToAsync (threadSensitive : Bool)

/-- The body of a function; `sys.exc_info()[1]`, calls and `try` statements go on with what they yield. -/
inductive Code (E V : Type) where
  | ret (v : V)
  | throw (e : E)
  /-- `raise` without an exception -/
  | reraise
  | excInfo (k : Option E → Code E V)
  /-- `try: body except BaseException as e: handler(e)` -/
  | tryExcept (body : Code E V) (handler : E → Code E V) (k : V → Code E V)
  | call (c : Call) (body : Code E V) (k : V → Code E V)
  /-- `await asyncio.create_task(body)` -/
  | task (body : Code E V) (k : V → Code E V)

/-- What is handled where the code runs. -/
structure Env (E : Type) where
  /-- what `sys.exc_info()[1]` gives -/
  handled : Option E
  /-- what is handled in the thread that idles for the enclosing `AsyncToSync` call -/
  below : Option E
  /-- what is handled in the thread of the event loop, under its tasks -/
  loop : Option E

variable {E V : Type}

/-- What the thread or the task handles that the function is called in. -/
def Env.under (env : Env E) : Call → Option E
  | .asyncToSync newLoop => if newLoop then none else env.loop
  | .syncToAsync threadSensitive => if threadSensitive then env.below else none

/-- Where the function runs, if it finds `handled`. -/
def Env.callee (env : Env E) (handled : Option E) : Call → Env E
  | .asyncToSync newLoop => ⟨handled, env.handled, if newLoop then none else env.loop⟩
  | .syncToAsync _ => { env with handled }

/-- What a caller gets: a value or an exception; `none` where it waits for ever. -/
abbrev Ending (E V : Type) := Option (Except E V)

inductive Event (E V : Type) where
  /-- A call begins, with what the function finds; or the wrapper fails before it. -/
  | entered (found : Except (Option E) (Option E))
  /-- A function has ended, with what its caller gets. -/
  | left (r : Ending E V)

/-- The trace of a run, and what it ends with. -/
abbrev Trace (E V : Type) := List (Event E V) × Ending E V

/-- What follows, if nothing is raised. -/
def Trace.andThen (x : Trace E V) (k : V → Trace E V) : Trace E V :=
  match x.2 with
  | some (.ok v) => (x.1 ++ (k v).1, (k v).2)
  | some (.error e) => (x.1, some (.error e))
  | none => (x.1, none)

def Trace.orElse (x : Trace E V) (handler : E → Trace E V) : Trace E V :=
  match x.2 with
  | some (.error e) => (x.1 ++ (handler e).1, (handler e).2)
  | some (.ok v) => (x.1, some (.ok v))
  | none => (x.1, none)

/-- What the caller gets, where the exception `e` comes to it as `leave e`. -/
def handedOver (leave : E → Option E) : Except E V → Ending E V
  | .ok v => some (.ok v)
  | .error e => (leave e).map .error

/-- A called function has ended. -/
def Trace.leaving (x : Trace E V) (leave : E → Option E) : Trace E V :=
  match x.2 with
  | some r => (x.1 ++ [.left (handedOver leave r)], handedOver leave r)
  | none => (x.1, none)

/-- A call begins with what the function finds, or fails before it. -/
def Trace.entering (found : Except (Option E) (Option E)) (body : Option E → Trace E V) : Trace E V :=
  match found with
  | .ok handled => (.entered found :: (body handled).1, (body handled).2)
  | .error e => ([.entered found], e.map .error)

/-- How calls are made. -/
structure Ways (E : Type) where
  /-- What the function finds, from what its caller handles and what is handled under it; or what the caller gets, if it
  is not called. -/
  enter : Call → Option E → Option E → Except (Option E) (Option E)
  /-- What the caller gets for an exception that ends the function. -/
  leave : Call → E → Option E

/-- A run, where calls are made in the ways of `w`, and `coroutine` is what leaves a coroutine for an exception. -/
def exec (w : Ways E) (noActive : E) (coroutine : E → E) : Code E V → Env E → Trace E V
  | .ret v, _ => ([], some (.ok v))
  | .throw e, _ => ([], some (.error e))
  | .reraise, env => ([], some (.error (env.handled.getD noActive)))
  | .excInfo k, env => exec w noActive coroutine (k env.handled) env
  | .tryExcept body handler k, env =>
    ((exec w noActive coroutine body env).orElse fun e =>
      exec w noActive coroutine (handler e) { env with handled := some e }).andThen fun v =>
        exec w noActive coroutine (k v) env
  | .call c body k, env =>
    (Trace.entering (w.enter c env.handled (env.under c)) fun handled =>
      (exec w noActive coroutine body (env.callee handled c)).leaving (w.leave c)).andThen fun v =>
        exec w noActive coroutine (k v) env
  | .task body k, env =>
    ((exec w noActive coroutine body { env with handled := env.loop }).orElse fun e =>
      ([], some (.error (coroutine e)))).andThen fun v => exec w noActive coroutine (k v) env

section

variable (truth : E → Except E Bool) (passage : Passage E)

/-- What the caller gets for what the wrapper raises before the function: `main_wrap` sets it in `call_result`, and of
`thread_handler` it comes through the future. -/
def Call.failed : Call → E → Option E
  | .asyncToSync _, e => some e
  | .syncToAsync _, e => (passage.future e).map passage.coroutine

/-- `if exc_info[1]: try: raise exc_info[1] except BaseException: func() else: func()`: what `func` finds. -/
def populated (c : Call) (excInfo under : Option E) : Except (Option E) (Option E) :=
  match excInfo with
  | none => .ok under
  | some e =>
    match truth e with
    | .error e' => .error (c.failed passage e')
    | .ok true => .ok (some e)
    | .ok false => .ok under

/-- Calls by `main_wrap` and `thread_handler`. -/
def wrapped : Ways E where
  enter := populated truth passage
  leave
    | .asyncToSync _, e => some (passage.coroutine e)
    | .syncToAsync _, e => (passage.future e).map passage.coroutine

/-- Calls of the function itself. -/
def direct : Ways E where
  enter _ excInfo _ := .ok excInfo
  leave
    | .asyncToSync _, e => some (passage.coroutine e)
    | .syncToAsync _, e => some e

end

/-! ### Two ways to make calls -/

section

variable (P : Call → Option E → Option E → Prop) (Q : Call → E → Prop) (w : Ways E) (noActive : E) (coroutine : E → E)

/-- At every call that the run reaches, `P` holds of what the caller handles and of what is handled under it; and `Q`
of every exception that a called function ends with. -/
def AtCalls : Code E V → Env E → Prop
  | .ret _, _ | .throw _, _ | .reraise, _ => True
  | .excInfo k, env => AtCalls (k env.handled) env
  | .tryExcept body handler k, env =>
    AtCalls body env ∧
      (∀ e, (exec w noActive coroutine body env).2 = some (.error e) → AtCalls (handler e) { env with handled := some e }) ∧
      ∀ v, ((exec w noActive coroutine body env).orElse fun e =>
        exec w noActive coroutine (handler e) { env with handled := some e }).2 = some (.ok v) → AtCalls (k v) env
  | .call c body k, env =>
    P c env.handled (env.under c) ∧
      (∀ handled, w.enter c env.handled (env.under c) = .ok handled → AtCalls body (env.callee handled c) ∧
        ∀ e, (exec w noActive coroutine body (env.callee handled c)).2 = some (.error e) → Q c e) ∧
      ∀ v, (Trace.entering (w.enter c env.handled (env.under c)) fun handled =>
        (exec w noActive coroutine body (env.callee handled c)).leaving (w.leave c)).2 = some (.ok v) → AtCalls (k v) env
  | .task body k, env =>
    AtCalls body { env with handled := env.loop } ∧
      ∀ v, ((exec w noActive coroutine body { env with handled := env.loop }).orElse fun e =>
        ([], some (.error (coroutine e)))).2 = some (.ok v) → AtCalls (k v) env

end

section

variable {x y : Trace E V} {k l : V → Trace E V}

theorem Trace.exists_andThen (x : Trace E V) (k : V → Trace E V) : ∃ r, (x.andThen k).1 = x.1 ++ r := by
  unfold andThen
  split
  · exact ⟨_, rfl⟩
  · exact ⟨[], (List.append_nil _).symm⟩
  · exact ⟨[], (List.append_nil _).symm⟩

theorem Trace.exists_orElse (x : Trace E V) (handler : E → Trace E V) : ∃ r, (x.orElse handler).1 = x.1 ++ r := by
  unfold orElse
  split
  · exact ⟨_, rfl⟩
  · exact ⟨[], (List.append_nil _).symm⟩
  · exact ⟨[], (List.append_nil _).symm⟩

theorem Trace.exists_leaving (x : Trace E V) (leave : E → Option E) : ∃ r, (x.leaving leave).1 = x.1 ++ r := by
  unfold leaving
  split
  · exact ⟨_, rfl⟩
  · exact ⟨[], (List.append_nil _).symm⟩

theorem Trace.exists_entering (found : Except (Option E) (Option E)) (body : Option E → Trace E V) :
    ∃ r, (Trace.entering found body).1 = .entered found :: r := by
  unfold entering
  split
  · exact ⟨_, rfl⟩
  · exact ⟨_, rfl⟩

theorem Trace.diverges_andThen (h : Diverges x.1 y.1) : Diverges (x.andThen k).1 (y.andThen l).1 := by
  obtain ⟨r, hr⟩ := x.exists_andThen k
  obtain ⟨r', hr'⟩ := y.exists_andThen l
  rw [hr, hr']
  exact h.append r r'

theorem Trace.diverges_orElse {handler handler' : E → Trace E V} (h : Diverges x.1 y.1) :
    Diverges (x.orElse handler).1 (y.orElse handler').1 := by
  obtain ⟨r, hr⟩ := x.exists_orElse handler
  obtain ⟨r', hr'⟩ := y.exists_orElse handler'
  rw [hr, hr']
  exact h.append r r'

theorem Trace.diverges_leaving {leave leave' : E → Option E} (h : Diverges x.1 y.1) :
    Diverges (x.leaving leave).1 (y.leaving leave').1 := by
  obtain ⟨r, hr⟩ := x.exists_leaving leave
  obtain ⟨r', hr'⟩ := y.exists_leaving leave'
  rw [hr, hr']
  exact h.append r r'

theorem Trace.diverges_entering {found found' : Except (Option E) (Option E)} {body body' : Option E → Trace E V}
    (h : found ≠ found') : Diverges (Trace.entering found body).1 (Trace.entering found' body').1 := by
  obtain ⟨r, hr⟩ := Trace.exists_entering found body
  obtain ⟨r', hr'⟩ := Trace.exists_entering found' body'
  rw [hr, hr']
  exact diverges_of_ne (fun heq => h (Event.entered.inj heq)) r r'

theorem Trace.diverges_body {handled : Option E} {body body' : Option E → Trace E V}
    (h : Diverges (body handled).1 (body' handled).1) :
    Diverges (Trace.entering (.ok handled) body).1 (Trace.entering (.ok handled) body').1 :=
  h.after [.entered (.ok handled)]

/-- What follows is alike if it is for the value there is. -/
theorem Trace.andThen_congr (h : ∀ v, x.2 = some (.ok v) → k v = l v) : x.andThen k = x.andThen l := by
  unfold andThen
  split
  · next v hv => rw [h v hv]
  · rfl
  · rfl

theorem Trace.orElse_congr {handler handler' : E → Trace E V} (h : ∀ e, x.2 = some (.error e) → handler e = handler' e) :
    x.orElse handler = x.orElse handler' := by
  unfold orElse
  split
  · next e he => rw [h e he]
  · rfl
  · rfl

theorem Trace.leaving_congr {leave leave' : E → Option E} (h : ∀ e, x.2 = some (.error e) → leave e = leave' e) :
    x.leaving leave = x.leaving leave' := by
  unfold leaving
  split
  · next r hr =>
    cases r with
    | ok v => rfl
    | error e => simp only [handedOver, h e hr]
  · rfl

theorem Trace.entering_congr {found : Except (Option E) (Option E)} {body body' : Option E → Trace E V}
    (h : ∀ handled, found = .ok handled → body handled = body' handled) :
    Trace.entering found body = Trace.entering found body' := by
  cases found with
  | error e => rfl
  | ok handled =>
    unfold entering
    dsimp only
    rw [h handled rfl]

theorem Trace.diverges_next {v : V} (hv : x.2 = some (.ok v)) (h : Diverges (k v).1 (l v).1) :
    Diverges (x.andThen k).1 (x.andThen l).1 := by
  unfold andThen
  rw [hv]
  exact h.after x.1

theorem Trace.diverges_handler {handler handler' : E → Trace E V} {e : E} (he : x.2 = some (.error e))
    (h : Diverges (handler e).1 (handler' e).1) : Diverges (x.orElse handler).1 (x.orElse handler').1 := by
  unfold orElse
  rw [he]
  exact h.after x.1

/-- The exception that ends a function does not come to its caller alike. -/
theorem Trace.diverges_left {leave leave' : E → Option E} {e : E} (he : x.2 = some (.error e))
    (h : leave e ≠ leave' e) : Diverges (x.leaving leave).1 (x.leaving leave').1 := by
  unfold leaving
  rw [he]
  refine (diverges_of_ne (fun heq => ?_) [] []).after x.1
  have hmap : (leave e).map (Except.error (α := V)) = (leave' e).map .error := Event.left.inj heq
  exact h (Option.map_injective (fun _ _ heq => Except.error.inj heq) hmap)

end

variable {f g : Ways E} {noActive : E} {coroutine : E → E}

/-- At every call that the run by `g` reaches, functions are entered alike, and what they raise comes to the caller
alike. -/
abbrev Alike (f g : Ways E) (noActive : E) (coroutine : E → E) : Code E V → Env E → Prop :=
  AtCalls (fun c excInfo under => f.enter c excInfo under = g.enter c excInfo under) (fun c e => f.leave c e = g.leave c e)
    g noActive coroutine

/-- With calls alike, the code does the same. -/
theorem exec_of_alike {c : Code E V} {env : Env E} (h : Alike f g noActive coroutine c env) :
    exec f noActive coroutine c env = exec g noActive coroutine c env := by
  induction c generalizing env with
  | ret v => rfl
  | throw e => rfl
  | reraise => rfl
  | excInfo k ih => exact ih env.handled h
  | tryExcept body handler k ihbody ihhandler ihk =>
    obtain ⟨hbody, hhandler, hk⟩ := h
    have htry := Trace.orElse_congr fun e he => ihhandler e (hhandler e he)
    rw [exec, exec, ihbody hbody, htry]
    exact Trace.andThen_congr fun v hv => ihk v (hk v hv)
  | call c body k ihbody ihk =>
    obtain ⟨henter, hbody, hk⟩ := h
    have hcalled : ∀ handled, g.enter c env.handled (env.under c) = .ok handled →
        (exec f noActive coroutine body (env.callee handled c)).leaving (f.leave c) =
          (exec g noActive coroutine body (env.callee handled c)).leaving (g.leave c) := by
      intro handled hg
      rw [ihbody (hbody handled hg).1]
      exact Trace.leaving_congr (hbody handled hg).2
    rw [exec, exec, henter, Trace.entering_congr hcalled]
    exact Trace.andThen_congr fun v hv => ihk v (hk v hv)
  | task body k ihbody ihk =>
    obtain ⟨hbody, hk⟩ := h
    rw [exec, exec, ihbody hbody]
    exact Trace.andThen_congr fun v hv => ihk v (hk v hv)

/-- A call is made alike, but not what follows it. -/
theorem exists_next_of_not_alike {c : Call} {body : Code E V} {k : V → Code E V} {env : Env E}
    (h : ¬ Alike f g noActive coroutine (.call c body k) env)
    (henter : f.enter c env.handled (env.under c) = g.enter c env.handled (env.under c))
    (hcalled : ∀ handled, g.enter c env.handled (env.under c) = .ok handled →
      Alike f g noActive coroutine body (env.callee handled c) ∧
        ∀ e, (exec g noActive coroutine body (env.callee handled c)).2 = some (.error e) → f.leave c e = g.leave c e) :
    ∃ v, (Trace.entering (g.enter c env.handled (env.under c)) fun handled =>
        (exec g noActive coroutine body (env.callee handled c)).leaving (g.leave c)).2 = some (.ok v) ∧
      ¬ Alike f g noActive coroutine (k v) env := by
  by_contra hall
  refine h ⟨henter, hcalled, fun v hv => ?_⟩
  by_contra hk
  exact hall ⟨v, hv, hk⟩

/-- Where a call is reached that is not made alike, the traces part. -/
theorem diverges_of_not_alike {c : Code E V} {env : Env E} (h : ¬ Alike f g noActive coroutine c env) :
    Diverges (exec f noActive coroutine c env).1 (exec g noActive coroutine c env).1 := by
  induction c generalizing env with
  | ret v => exact absurd trivial h
  | throw e => exact absurd trivial h
  | reraise => exact absurd trivial h
  | excInfo k ih => exact ih env.handled h
  | tryExcept body handler k ihbody ihhandler ihk =>
    rw [exec, exec]
    by_cases hbody : Alike f g noActive coroutine body env
    swap
    · exact Trace.diverges_andThen (Trace.diverges_orElse (ihbody hbody))
    rw [exec_of_alike hbody]
    by_cases hhandler : ∀ e, (exec g noActive coroutine body env).2 = some (.error e) →
        Alike f g noActive coroutine (handler e) { env with handled := some e }
    · have htry := Trace.orElse_congr fun e he => exec_of_alike (hhandler e he)
      rw [htry]
      obtain ⟨v, hv⟩ := not_forall.1 fun hk => h ⟨hbody, hhandler, hk⟩
      obtain ⟨hv, hk⟩ := Classical.not_imp.1 hv
      exact Trace.diverges_next hv (ihk v hk)
    · obtain ⟨e, he⟩ := not_forall.1 hhandler
      obtain ⟨he, hhandler⟩ := Classical.not_imp.1 he
      exact Trace.diverges_andThen (Trace.diverges_handler he (ihhandler e hhandler))
  | call c body k ihbody ihk =>
    rw [exec, exec]
    by_cases henter : f.enter c env.handled (env.under c) = g.enter c env.handled (env.under c)
    swap
    · exact Trace.diverges_andThen (Trace.diverges_entering henter)
    rw [henter]
    by_cases hcalled : ∀ handled, g.enter c env.handled (env.under c) = .ok handled →
        Alike f g noActive coroutine body (env.callee handled c) ∧
          ∀ e, (exec g noActive coroutine body (env.callee handled c)).2 = some (.error e) → f.leave c e = g.leave c e
    · -- what follows the call
      obtain ⟨v, hv, hk⟩ := exists_next_of_not_alike h henter hcalled
      have hcall : ∀ handled, g.enter c env.handled (env.under c) = .ok handled →
          (exec f noActive coroutine body (env.callee handled c)).leaving (f.leave c) =
            (exec g noActive coroutine body (env.callee handled c)).leaving (g.leave c) := by
        intro handled hg
        rw [exec_of_alike (hcalled handled hg).1]
        exact Trace.leaving_congr (hcalled handled hg).2
      rw [Trace.entering_congr hcall]
      exact Trace.diverges_next hv (ihk v hk)
    · obtain ⟨handled, hg⟩ := not_forall.1 hcalled
      obtain ⟨hg, hcalled⟩ := Classical.not_imp.1 hg
      rw [hg]
      refine Trace.diverges_andThen (Trace.diverges_body ?_)
      by_cases hbody : Alike f g noActive coroutine body (env.callee handled c)
      · -- what the function raises
        obtain ⟨e, he⟩ := not_forall.1 fun hleave => hcalled ⟨hbody, hleave⟩
        obtain ⟨he, hleave⟩ := Classical.not_imp.1 he
        rw [exec_of_alike hbody]
        exact Trace.diverges_left he hleave
      · exact Trace.diverges_leaving (ihbody hbody)
  | task body k ihbody ihk =>
    rw [exec, exec]
    by_cases hbody : Alike f g noActive coroutine body { env with handled := env.loop }
    swap
    · exact Trace.diverges_andThen (Trace.diverges_orElse (ihbody hbody))
    rw [exec_of_alike hbody]
    obtain ⟨v, hv⟩ := not_forall.1 fun hk => h ⟨hbody, hk⟩
    obtain ⟨hv, hk⟩ := Classical.not_imp.1 hv
    exact Trace.diverges_next hv (ihk v hk)

/-- Two ways to make calls make the same of a run iff they make the same of all its calls. -/
theorem alike_iff {c : Code E V} {env : Env E} :
    exec f noActive coroutine c env = exec g noActive coroutine c env ↔ Alike f g noActive coroutine c env := by
  constructor
  · intro heq
    by_contra hnot
    exact (diverges_of_not_alike hnot).ne (congrArg Prod.fst heq)
  · exact exec_of_alike

/-! ### When `sys.exc_info()` is correctly populated -/

variable {truth : E → Except E Bool} {passage : Passage E}

/-- The exception is true, or nothing is handled; or what is under it is the same anyway. -/
structure Populates (truth : E → Except E Bool) (excInfo under : Option E) : Prop where
  unhandled : excInfo = none → under = none
  handled : ∀ e, excInfo = some e → truth e = .ok true ∨ truth e = .ok false ∧ under = some e

/-- What a function raises that `sync_to_async` has called arrives as it is. -/
def Carries (passage : Passage E) : Call → E → Prop
  | .asyncToSync _, _ => True
  | .syncToAsync _, e => (passage.future e).map passage.coroutine = some e

theorem populated_eq_ok {c : Call} {excInfo under : Option E} :
    populated truth passage c excInfo under = .ok excInfo ↔ Populates truth excInfo under := by
  cases excInfo with
  | none =>
    constructor
    · intro h
      refine ⟨fun _ => Except.ok.inj h, fun e he => ?_⟩
      cases he
    · intro h
      exact congrArg Except.ok (h.unhandled rfl)
  | some e =>
    unfold populated
    constructor
    · intro h
      refine ⟨fun hnone => (by cases hnone), fun e' he' => ?_⟩
      cases he'
      cases htruth : truth e with
      | error e' =>
        simp only [htruth] at h
        cases h
      | ok b =>
        simp only [htruth] at h
        cases b with
        | true => exact .inl rfl
        | false => exact .inr ⟨rfl, Except.ok.inj h⟩
    · intro h
      obtain htrue | ⟨hfalse, hunder⟩ := h.handled e rfl
      · simp only [htrue]
      · simp only [hfalse, hunder]

theorem leave_wrapped (c : Call) (e : E) :
    (wrapped truth passage).leave c e = (direct passage).leave c e ↔ Carries passage c e := by
  cases c with
  | asyncToSync newLoop => exact ⟨fun _ => trivial, fun _ => rfl⟩
  | syncToAsync threadSensitive => exact Iff.rfl

/-- **`sys.exc_info()` is correctly populated**, in all wrapped functions of a run and with all that follows from it, iff
at each of the calls the exception that the caller handles is true, or it handles none and neither does the thread
or task that the function is called in; or that handles the same exception; and the future of `sync_to_async` carries
what functions raise as it is. -/
theorem populated_iff {c : Code E V} {env : Env E} :
    exec (wrapped truth passage) noActive passage.coroutine c env = exec (direct passage) noActive passage.coroutine c env ↔
      AtCalls (fun _ => Populates truth) (Carries passage) (direct passage) noActive passage.coroutine c env := by
  have henter : (fun c excInfo under => (wrapped truth passage).enter c excInfo under =
      (direct passage).enter c excInfo under) = fun _ => Populates truth := by
    funext c excInfo under
    exact propext populated_eq_ok
  have hleave : (fun c e => (wrapped truth passage).leave c e = (direct passage).leave c e) = Carries passage := by
    funext c e
    exact propext (leave_wrapped c e)
  rw [alike_iff, Alike, henter, hleave]

/-- The code starts no task. -/
def Code.NoTasks : Code E V → Prop
  | .ret _ | .throw _ | .reraise => True
  | .excInfo k => ∀ e, (k e).NoTasks
  | .tryExcept body handler k => body.NoTasks ∧ (∀ e, (handler e).NoTasks) ∧ ∀ v, (k v).NoTasks
  | .call _ body k => body.NoTasks ∧ ∀ v, (k v).NoTasks
  | .task _ _ => False

/-- Where nothing is handled, nothing is handled in the threads of the caller and of the loop. -/
def Env.Ordinary (env : Env E) : Prop := env.handled = none → env.below = none ∧ env.loop = none

theorem Env.Ordinary.under {env : Env E} (h : env.Ordinary) (c : Call) (hnone : env.handled = none) :
    env.under c = none := by
  obtain ⟨hbelow, hloop⟩ := h hnone
  cases c with
  | asyncToSync newLoop => simp [Env.under, hloop]
  | syncToAsync threadSensitive => simp [Env.under, hbelow]

theorem Env.Ordinary.callee {env : Env E} (h : env.Ordinary) (c : Call) : (env.callee env.handled c).Ordinary := by
  cases c with
  | asyncToSync newLoop =>
    intro hnone
    have hloop := (h hnone).2
    exact ⟨hnone, by simp [Env.callee, hloop]⟩
  | syncToAsync threadSensitive => exact h

/-- A coroutine that is called in an `except` block and calls a function. -/
def nested : Code Nat Unit :=
  .tryExcept (.throw 7)
    (fun _ => .call (.asyncToSync true)
      (.call (.syncToAsync true) (.excInfo fun e => if e = some 7 then .ret () else .reraise) .ret) .ret) .ret

/-- The same from a task of its own: the function finds the exception that the idle thread handles, its caller none. -/
def nestedTask : Code Nat Unit :=
  .tryExcept (.throw 7)
    (fun _ => .call (.asyncToSync true) (.task (.call (.syncToAsync true) (.ret ()) .ret) .ret) .ret) .ret

example : (exec (wrapped (fun _ => .ok true) .plain) 0 id nestedTask ⟨none, none, none⟩).1.head? =
      some (.entered (.ok (some 7))) ∧
    (exec (wrapped (fun _ => .ok true) .plain) 0 id nestedTask ⟨none, none, none⟩).1[1]? = some (.entered (.ok (some 7))) ∧
    (exec (direct .plain) 0 id nestedTask ⟨none, none, none⟩).1[1]? = some (.entered (.ok none)) := ⟨rfl, rfl, rfl⟩

end Asgiref.Sync.ExcInfo
