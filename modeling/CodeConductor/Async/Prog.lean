import Mathlib.Data.List.Basic
import Mathlib.Logic.Function.Basic

/-!
# Asynchronous computations over shared state

An `async` function is a tree of **atomic steps**: between two suspension points the computation
reads the shared state, changes it, and says how it continues. `Prog` is that tree and nothing
else — no scheduler, no thread identity, no notion of time — so the same term is run alone
(`Async.Alone`), or interleaved with others and cut short by crashes (`Async.Config`).

## Shape of a step

* the **label** names the step, so that a property of runs can talk about "the step that renames
  the directory" without mentioning program counters;
* the **guard** says when the step is enabled: a step waiting for a lock or a promise is a step
  whose guard is false until the lock is free or the promise settled;
* the **effect** changes the state atomically and lists the calls it starts in the background.
  It is told the identity `n` the first of these will get, which is what a promise stored in a map
  amounts to;
* the **continuation** sees the state *before* the effect, i.e. what the step observed.

Failure is a value: a computation ends in `Except E A`. `attempt` turns the ending into an
ordinary result, and `try`/`catch` and `finally` are derived from it.
-/

namespace Async

/-- An asynchronous computation with labels `L`, shared state `S`, background calls `K`, errors
`E` and result `A`: finished, or suspended at an atomic step. -/
inductive Prog (L S K E A : Type) : Type where
  /-- Finished, by returning or by throwing. -/
  | ret (r : Except E A)
  /-- Suspended at an atomic step. -/
  | act (l : L) (guard : S → Bool) (effect : S → ℕ → S × List K)
      (next : S → ℕ → Prog L S K E A)

namespace Prog

variable {L S K E E' A B : Type}

/-! ### Sequencing -/

/-- Sequential composition; a thrown error skips the continuation. -/
def bind : Prog L S K E A → (A → Prog L S K E B) → Prog L S K E B
  | ret (.ok a), f => f a
  | ret (.error e), _ => ret (.error e)
  | act l guard effect next, f => act l guard effect fun s n ↦ (next s n).bind f

/-- Run a computation and return how it ended; `attempt p` never throws. -/
def attempt : Prog L S K E A → Prog L S K E' (Except E A)
  | ret r => ret (.ok r)
  | act l guard effect next => act l guard effect fun s n ↦ (next s n).attempt

/-- Change what a computation throws. -/
def mapError (f : E → E') : Prog L S K E A → Prog L S K E' A
  | ret (.ok a) => ret (.ok a)
  | ret (.error e) => ret (.error (f e))
  | act l guard effect next => act l guard effect fun s n ↦ (next s n).mapError f

instance : Monad (Prog L S K E) where
  pure a := ret (.ok a)
  bind := bind

/-- `catch`: the handler continues from a thrown error. -/
def catching (p : Prog L S K E A) (handler : E → Prog L S K E A) : Prog L S K E A :=
  p.attempt.bind fun
    | .ok a => ret (.ok a)
    | .error e => handler e

instance : MonadExceptOf E (Prog L S K E) where
  throw e := ret (.error e)
  tryCatch := catching

/-- `finally`: the finalizer runs however `p` ended; its own error replaces the ending of `p`. -/
def ensuring (p : Prog L S K E A) (finalizer : Prog L S K E Unit) : Prog L S K E A :=
  p.attempt.bind fun r ↦ finalizer.bind fun _ ↦ ret r

@[simp] theorem pure_eq (a : A) : (pure a : Prog L S K E A) = ret (.ok a) := rfl

@[simp] theorem throw_eq (e : E) : (throw e : Prog L S K E A) = ret (.error e) := rfl

@[simp] theorem bind_eq (p : Prog L S K E A) (f : A → Prog L S K E B) : p >>= f = p.bind f := rfl

@[simp] theorem tryCatch_eq (p : Prog L S K E A) (handler : E → Prog L S K E A) :
    tryCatch p handler = p.catching handler := rfl

@[simp] theorem ret_ok_bind (a : A) (f : A → Prog L S K E B) : (ret (.ok a)).bind f = f a := rfl

@[simp] theorem ret_error_bind (e : E) (f : A → Prog L S K E B) :
    (ret (.error e) : Prog L S K E A).bind f = ret (.error e) := rfl

@[simp] theorem act_bind (l : L) (guard : S → Bool) (effect : S → ℕ → S × List K)
    (next : S → ℕ → Prog L S K E A) (f : A → Prog L S K E B) :
    (act l guard effect next).bind f = act l guard effect fun s n ↦ (next s n).bind f := rfl

@[simp] theorem ret_attempt (r : Except E A) :
    (ret r : Prog L S K E A).attempt = (ret (.ok r) : Prog L S K E' (Except E A)) := rfl

@[simp] theorem act_attempt (l : L) (guard : S → Bool) (effect : S → ℕ → S × List K)
    (next : S → ℕ → Prog L S K E A) :
    ((act l guard effect next).attempt : Prog L S K E' (Except E A)) =
      act l guard effect fun s n ↦ (next s n).attempt := rfl

/-- Returning what was returned. -/
theorem bind_ret (p : Prog L S K E A) : (p.bind fun a ↦ ret (.ok a)) = p := by
  induction p with
  | ret r =>
    cases r with
    | ok a => rfl
    | error e => rfl
  | act l guard effect next ih => simp only [act_bind, ih]

/-! ### The atomic steps programs are written with -/

/-- Lift the result of a pure computation. -/
def ofResult (r : Except E A) : Prog L S K E A := ret r

/-- One atomic step that may change the state and returns or throws. -/
def atomic (l : L) (f : S → Except E A × S) : Prog L S K E A :=
  act l (fun _ ↦ true) (fun s _ ↦ ((f s).2, [])) fun s _ ↦ ret (f s).1

/-- One atomic step that only reads. -/
def read (l : L) (f : S → Except E A) : Prog L S K E A :=
  act l (fun _ ↦ true) (fun s _ ↦ (s, [])) fun s _ ↦ ret (f s)

/-- One atomic step that only changes the state. -/
def modify (l : L) (f : S → S) : Prog L S K E Unit :=
  act l (fun _ ↦ true) (fun s _ ↦ (f s, [])) fun _ _ ↦ ret (.ok ())

/-- Suspend until `guard` holds, then change the state in the same atomic step. -/
def await (l : L) (guard : S → Bool) (f : S → Except E A × S) : Prog L S K E A :=
  act l guard (fun s _ ↦ ((f s).2, [])) fun s _ ↦ ret (f s).1

/-- Start `k n` in the background, `n` being the identity it gets, and change the state in the
same atomic step. -/
def fork (l : L) (k : S → ℕ → K) (f : S → ℕ → S) : Prog L S K E Unit :=
  act l (fun _ ↦ true) (fun s n ↦ (f s n, [k s n])) fun _ _ ↦ ret (.ok ())

/-- The label of the step a computation is suspended at. -/
def label? : Prog L S K E A → Option L
  | ret _ => none
  | act l _ _ _ => some l

end Prog

end Async
