import CodeConductor.Async.RelyGuarantee

/-!
# Computations on a part of the state

A computation of a component runs over the component's own state. `onPart` runs it over a larger
state the component is a part of, between the steps of everybody else. Where the protocol says
nothing about that part, the computation keeps it, and keeps every fact the others keep
(`Protocol.safe_onPart`).
-/

namespace Async

variable {L L' S S' K E A P : Type}

/-- Run a computation on the part of the state that `get` reads and `set` replaces. -/
def Prog.onPart (label : L → L') (get : S' → S) (set : S' → S → S') :
    Prog L S Empty E A → Prog L' S' K E A
  | .ret r => .ret r
  | .act l guard effect next =>
    .act (label l) (fun s ↦ guard (get s)) (fun s n ↦ (set s (effect (get s) n).1, []))
      fun s n ↦ (next (get s) n).onPart label get set

/-- A computation on a part the protocol says nothing about. -/
theorem Protocol.safe_onPart {X : Protocol L' S' K P} {p : P} {t : ℕ} {label : L → L'}
    {get : S' → S} {set : S' → S → S'} {J : S' → Prop}
    (hinv : ∀ {n s} x, X.inv n s → X.inv n (set s x)) (hguar : ∀ n s x, X.guar p t n s (set s x))
    (hrely : ∀ {s s'}, X.rely p t s s' → J s → J s') (hset : ∀ {s} x, J s → J (set s x))
    (prog : Prog L S Empty E A) {s : S'} (h : J s) :
    X.Safe p t (fun _ s ↦ J s) (prog.onPart label get set : Prog L' S' K E A) s := by
  induction prog generalizing s with
  | ret r => exact h
  | act l guard effect next ih =>
    intro s' n _ hinv' hr _ _
    have hJ : J (set s' (effect (get s') n).1) := hset _ (hrely hr h)
    exact ⟨hinv _ hinv', hguar n s' _, fun i k hk ↦ (nomatch hk), ih _ _ hJ⟩

end Async
