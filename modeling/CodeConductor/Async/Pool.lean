import CodeConductor.Async.Prog

/-!
# Interleaving: pools of threads, background calls and crashes

A **pool** is a shared state and the threads that run over it. One event of a run is

* `run t` — thread `t` performs its next atomic step, if the guard of that step holds;
* `call p k` — a client starts the call `k` in process `p`;
* `crash p` — process `p` dies between two steps: its threads are gone, and what the state loses
  with them is the system's `crash`.

Nothing orders the events: every interleaving and every crash point is a run. `Reaches sys ok init`
collects the configurations of the runs all of whose steps satisfy `ok`; with `ok` always true
these are all runs, and a narrower `ok` singles out the runs in which a named step only ever
happens in states of a given kind.
-/

namespace Async

variable {L S K E A P : Type}

/-- A thread: the process it belongs to and what it still has to do. -/
structure Thread (L S K E A P : Type) where
  /-- The process the thread dies with. -/
  proc : P
  /-- The rest of its computation. -/
  prog : Prog L S K E A

/-- A shared state and the threads running over it. -/
structure Config (L S K E A P : Type) where
  /-- The state all threads read and change. -/
  shared : S
  /-- The threads, by identity. -/
  threads : ℕ → Option (Thread L S K E A P)
  /-- The identity the next thread gets. -/
  next : ℕ

/-- The state with no thread started yet. -/
def Config.start (s : S) : Config L S K E A P := ⟨s, fun _ ↦ none, 0⟩

/-- How thread `t` ended, if it is there and has ended. -/
def Config.result (cfg : Config L S K E A P) (t : ℕ) : Option (Except E A) :=
  match cfg.threads t with
  | some ⟨_, .ret r⟩ => some r
  | _ => none

theorem Config.result_eq_some {cfg : Config L S K E A P} {t : ℕ} {r : Except E A} :
    cfg.result t = some r ↔ ∃ p, cfg.threads t = some ⟨p, .ret r⟩ := by
  unfold Config.result
  split
  · rename_i p r' hth
    rw [hth]
    simp
  · rename_i hth
    refine ⟨fun h ↦ absurd h (by simp), fun ⟨p, hp⟩ ↦ absurd hp (hth p r)⟩

/-- What the calls of a system do, who may make them, and what a crash destroys. -/
structure System (L S K E A P : Type) where
  /-- The computation of a call, told its process and its thread identity. -/
  body : P → ℕ → K → Prog L S K E A
  /-- Whether process `p` may make the call from outside in this state. -/
  entry : P → K → S → Bool
  /-- The state after process `p` died. -/
  crash : P → S → S

/-- One event of a run. -/
inductive Event (K P : Type) where
  /-- A thread performs one atomic step. -/
  | run (t : ℕ)
  /-- A call is made from outside. -/
  | call (p : P) (k : K)
  /-- A process dies. -/
  | crash (p : P)
  deriving DecidableEq, Repr

namespace System

/-- Start the calls `ks` in process `p`, giving them the identities `n`, `n + 1`, …. -/
def spawn (sys : System L S K E A P) (p : P) : ℕ → List K → (ℕ → Option (Thread L S K E A P)) →
    ℕ → Option (Thread L S K E A P)
  | _, [], threads => threads
  | n, k :: ks, threads =>
    sys.spawn p (n + 1) ks (Function.update threads n (some ⟨p, sys.body p n k⟩))

/-- The configuration after one event, when the event is possible. -/
def advance [DecidableEq P] (sys : System L S K E A P) (cfg : Config L S K E A P) :
    Event K P → Option (Config L S K E A P)
  | .run t =>
    match cfg.threads t with
    | some ⟨p, .act _ guard effect next⟩ =>
      if guard cfg.shared then
        let out := effect cfg.shared cfg.next
        some
          { shared := out.1
            threads := sys.spawn p cfg.next out.2
              (Function.update cfg.threads t (some ⟨p, next cfg.shared cfg.next⟩))
            next := cfg.next + out.2.length }
      else none
    | _ => none
  | .call p k =>
    if sys.entry p k cfg.shared then
      some
        { shared := cfg.shared
          threads := sys.spawn p cfg.next [k] cfg.threads
          next := cfg.next + 1 }
    else none
  | .crash p =>
    some
      { shared := sys.crash p cfg.shared
        threads := fun t ↦ (cfg.threads t).filter fun th ↦ !decide (th.proc = p)
        next := cfg.next }

/-- Whether the event, if it is a step of a thread, passes the check `ok` in the present state. -/
def permits (ok : P → ℕ → L → S → Bool) (cfg : Config L S K E A P) : Event K P → Bool
  | .run t =>
    match cfg.threads t with
    | some ⟨p, .act l _ _ _⟩ => ok p t l cfg.shared
    | _ => true
  | _ => true

/-- Run a list of events from a configuration, as long as the steps pass the check `ok`. -/
def advanceAll [DecidableEq P] (sys : System L S K E A P) (ok : P → ℕ → L → S → Bool)
    (cfg : Config L S K E A P) : List (Event K P) → Option (Config L S K E A P)
  | [] => some cfg
  | e :: es =>
    if permits ok cfg e then
      (sys.advance cfg e).bind fun cfg' ↦ sys.advanceAll ok cfg' es
    else none

/-- Whether the event, if it is a step of a thread, meets `ok` in the present state. -/
def Permits (ok : P → ℕ → L → S → Prop) (cfg : Config L S K E A P) : Event K P → Prop
  | .run t => ∀ th ∈ cfg.threads t, ∀ l ∈ th.prog.label?, ok th.proc t l cfg.shared
  | _ => True

/-- The configurations reached from `init` by runs all of whose steps meet `ok`. -/
inductive Reaches [DecidableEq P] (sys : System L S K E A P) (ok : P → ℕ → L → S → Prop)
    (init : Config L S K E A P) : Config L S K E A P → Prop
  | refl : Reaches sys ok init init
  | step {cfg cfg' : Config L S K E A P} (e : Event K P) : Reaches sys ok init cfg →
      Permits ok cfg e → sys.advance cfg e = some cfg' → Reaches sys ok init cfg'

/-- The condition every step meets. -/
def unrestricted : P → ℕ → L → S → Prop := fun _ _ _ _ ↦ True

variable {sys : System L S K E A P}

theorem permits_unrestricted (cfg : Config L S K E A P) (e : Event K P) :
    Permits unrestricted cfg e := by
  cases e with
  | run t => intro _ _ _ _; trivial
  | call p k => trivial
  | crash p => trivial

theorem permits_iff {ok : P → ℕ → L → S → Bool} {cfg : Config L S K E A P} {e : Event K P}
    (h : permits ok cfg e = true) : Permits (fun p t l s ↦ ok p t l s = true) cfg e := by
  cases e with
  | run t =>
    intro th hth l hl
    obtain ⟨p, prog⟩ := th
    cases prog with
    | ret r => exact nomatch hl
    | act l' guard effect next =>
      obtain rfl := Option.some.inj hl
      have hth' : cfg.threads t = some ⟨p, .act l' guard effect next⟩ := hth
      simpa [permits, hth'] using h
  | call p k => trivial
  | crash p => trivial

section Runs

variable [DecidableEq P]

/-- Runs compose. -/
theorem Reaches.trans {ok : P → ℕ → L → S → Prop} {a b c : Config L S K E A P}
    (hab : sys.Reaches ok a b) (hbc : sys.Reaches ok b c) : sys.Reaches ok a c := by
  induction hbc with
  | refl => exact hab
  | step e _ hok happ ih => exact .step e ih hok happ

theorem advanceAll_append (ok : P → ℕ → L → S → Bool) (cfg : Config L S K E A P)
    (es fs : List (Event K P)) : sys.advanceAll ok cfg (es ++ fs) =
      (sys.advanceAll ok cfg es).bind (sys.advanceAll ok · fs) := by
  induction es generalizing cfg with
  | nil => rfl
  | cons e es ih =>
    rw [List.cons_append, advanceAll, advanceAll]
    split
    · rw [Option.bind_assoc]
      exact congrArg _ (funext fun cfg' ↦ ih cfg')
    · rfl

theorem advanceAll_cons {ok : P → ℕ → L → S → Bool} {a b : Config L S K E A P} {e : Event K P}
    {es : List (Event K P)} (h : sys.advanceAll ok a (e :: es) = some b) :
    permits ok a e = true ∧ ∃ m, sys.advance a e = some m ∧ sys.advanceAll ok m es = some b := by
  rw [advanceAll] at h
  split at h
  · rename_i hok
    exact ⟨hok, Option.bind_eq_some_iff.1 h⟩
  · exact nomatch h

/-- A list of events that can be performed is a run. -/
theorem reaches_of_advanceAll {ok : P → ℕ → L → S → Bool} {a b : Config L S K E A P}
    {es : List (Event K P)} (h : sys.advanceAll ok a es = some b) :
    sys.Reaches (fun p t l s ↦ ok p t l s = true) a b := by
  induction es generalizing a with
  | nil =>
    obtain rfl := Option.some.inj h
    exact .refl
  | cons e es ih =>
    obtain ⟨hok, m, hm, hb⟩ := advanceAll_cons h
    exact (Reaches.step e .refl (permits_iff hok) hm).trans (ih hb)

/-- A restricted run is a run. -/
theorem Reaches.mono {ok ok' : P → ℕ → L → S → Prop} {a b : Config L S K E A P}
    (hok : ∀ p t l s, ok p t l s → ok' p t l s) (h : sys.Reaches ok a b) :
    sys.Reaches ok' a b := by
  induction h with
  | refl => exact .refl
  | @step cfg cfg' e _ hp happ ih =>
    refine .step e ih ?_ happ
    cases e with
    | run t => exact fun th hth l hl ↦ hok _ _ _ _ (hp th hth l hl)
    | call p k => trivial
    | crash p => trivial

end Runs

/-! ### What starting calls does to the pool -/

theorem spawn_lt (p : P) {n t : ℕ} (ks : List K) (threads : ℕ → Option (Thread L S K E A P))
    (h : t < n) : sys.spawn p n ks threads t = threads t := by
  induction ks generalizing n threads with
  | nil => rfl
  | cons k ks ih =>
    rw [spawn, ih _ (by omega), Function.update_of_ne (by omega)]

/-- A thread of the pool after a spawn was there before, or is one of the started calls. -/
theorem spawn_cases (p : P) {n t : ℕ} {ks : List K}
    {threads : ℕ → Option (Thread L S K E A P)} {th : Thread L S K E A P}
    (h : sys.spawn p n ks threads t = some th) :
    threads t = some th ∨
      ∃ i k, ks[i]? = some k ∧ t = n + i ∧ th = ⟨p, sys.body p t k⟩ := by
  induction ks generalizing n threads with
  | nil => exact .inl h
  | cons k ks ih =>
    rcases ih h with hold | ⟨i, k', hk', rfl, rfl⟩
    · by_cases ht : t = n
      · subst ht
        rw [Function.update_self] at hold
        exact .inr ⟨0, k, rfl, rfl, (Option.some.inj hold).symm⟩
      · rw [Function.update_of_ne ht] at hold
        exact .inl hold
    · exact .inr ⟨i + 1, k', hk', by omega, rfl⟩

/-! ### What an event does -/

section Events

variable [DecidableEq P] {cfg cfg' : Config L S K E A P}

/-- A thread's step is the step its computation is suspended at. -/
theorem advance_run {t : ℕ} (h : sys.advance cfg (.run t) = some cfg') :
    ∃ p l guard effect next, cfg.threads t = some ⟨p, .act l guard effect next⟩ ∧
      guard cfg.shared = true ∧
      cfg' =
        { shared := (effect cfg.shared cfg.next).1
          threads := sys.spawn p cfg.next (effect cfg.shared cfg.next).2
            (Function.update cfg.threads t (some ⟨p, next cfg.shared cfg.next⟩))
          next := cfg.next + (effect cfg.shared cfg.next).2.length } := by
  simp only [advance] at h
  split at h
  case h_2 => exact absurd h (by simp)
  case h_1 p l guard effect next hth =>
    split at h
    case isFalse => exact absurd h (by simp)
    case isTrue hg => exact ⟨p, l, guard, effect, next, hth, hg, (Option.some.inj h).symm⟩

theorem advance_call {p : P} {k : K} (h : sys.advance cfg (.call p k) = some cfg') :
    sys.entry p k cfg.shared = true ∧
      cfg' =
        { shared := cfg.shared
          threads := Function.update cfg.threads cfg.next (some ⟨p, sys.body p cfg.next k⟩)
          next := cfg.next + 1 } := by
  simp only [advance] at h
  split at h
  case isFalse => exact absurd h (by simp)
  case isTrue hentry => exact ⟨hentry, (Option.some.inj h).symm⟩

theorem advance_crash {p : P} (h : sys.advance cfg (.crash p) = some cfg') :
    cfg' =
      { shared := sys.crash p cfg.shared
        threads := fun t ↦ (cfg.threads t).filter fun th ↦ !decide (th.proc = p)
        next := cfg.next } :=
  (Option.some.inj h).symm

end Events

end System

end Async
