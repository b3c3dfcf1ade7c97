import CodeConductor.Async.RelyGuarantee

/-!
# Computations that carry a fact

A fact the rely keeps, such as holding a lock, is carried by a computation when every step of it
keeps the fact too. `Carries` says so of all endings; it composes along the structure of the
computation, so that only the steps that touch the fact need an argument.
-/

namespace Async

namespace Protocol

variable {L S K E E' A B P : Type} {X : Protocol L S K P} {p : P} {t : ℕ} {J : S → Prop}

/-- The computation, started where `J` holds, keeps its side of the protocol and ends where `J`
holds. -/
def Carries (X : Protocol L S K P) (p : P) (t : ℕ) (J : S → Prop) (prog : Prog L S K E A) : Prop :=
  ∀ s, J s → X.Safe p t (fun _ s ↦ J s) prog s

namespace Carries

theorem ret (r : Except E A) : X.Carries p t J (.ret r : Prog L S K E A) := fun _ h ↦ h

theorem bind {prog : Prog L S K E A} {f : A → Prog L S K E B} (h : X.Carries p t J prog)
    (hf : ∀ a, X.Carries p t J (f a)) : X.Carries p t J (prog.bind f) :=
  fun s hs ↦ (h s hs).bind (fun a s hs ↦ hf a s hs) fun _ _ hs ↦ hs

theorem attempt {prog : Prog L S K E A} (h : X.Carries p t J prog) :
    X.Carries p t J (prog.attempt : Prog L S K E' (Except E A)) :=
  fun s hs ↦ (h s hs).attempt.mono fun _ _ ⟨_, _, hs⟩ ↦ hs

theorem ite {c : Prop} [Decidable c] {a b : Prog L S K E A} (ha : c → X.Carries p t J a)
    (hb : ¬c → X.Carries p t J b) : X.Carries p t J (if c then a else b) :=
  fun s hs ↦ .ite (fun hc ↦ ha hc s hs) fun hc ↦ hb hc s hs

theorem catching {prog : Prog L S K E A} {handler : E → Prog L S K E A}
    (h : X.Carries p t J prog) (hf : ∀ e, X.Carries p t J (handler e)) :
    X.Carries p t J (prog.catching handler) :=
  fun s hs ↦ (h s hs).catching (fun _ _ hs ↦ hs) fun e s hs ↦ hf e s hs

theorem ensuring {prog : Prog L S K E A} {finalizer : Prog L S K E Unit}
    (h : X.Carries p t J prog) (hf : X.Carries p t J finalizer) :
    X.Carries p t J (prog.ensuring finalizer) :=
  fun s hs ↦ (h s hs).ensuring fun _ s hs ↦ (hf s hs).mono fun r _ hs ↦ by cases r <;> exact hs

/-- Sequencing, when the second part gives up what the first carried. -/
theorem followed {I : S → Prop} {prog : Prog L S K E A} {f : A → Prog L S K E B}
    (h : X.Carries p t J prog) (hJI : ∀ s, J s → I s)
    (hf : ∀ a s, J s → X.Safe p t (fun _ s ↦ I s) (f a) s) {s : S} (hs : J s) :
    X.Safe p t (fun _ s ↦ I s) (prog.bind f) s :=
  (h s hs).bind hf fun _ s hs ↦ hJI s hs

/-- A step that only reads carries every fact the others keep. -/
theorem read (hrefl : ∀ n s, X.guar p t n s s) (hrely : ∀ {s s'}, X.rely p t s s' → J s → J s')
    {l : L} {f : S → Except E A} : X.Carries p t J (Prog.read l f) :=
  fun _ hs ↦ safe_atomic (f := fun s ↦ (f s, s)) fun s' n _ hinv hr _ ↦
    ⟨hinv, hrefl n s', hrely hr hs⟩

/-- So does a step that waits and leaves the state as it is. -/
theorem await (hrefl : ∀ n s, X.guar p t n s s) (hrely : ∀ {s s'}, X.rely p t s s' → J s → J s')
    {l : L} {guard : S → Bool} {f : S → Except E A} :
    X.Carries p t J (Prog.await l guard fun s ↦ (f s, s)) :=
  fun _ hs s' n _ hinv hr _ _ ↦
    ⟨hinv, hrefl n s', fun _ _ hi ↦ absurd hi (by simp), hrely hr hs⟩

end Carries

/-- One step that only changes the state, and ends a computation. -/
theorem safe_modify {s : S} {Q : Except E Unit → S → Prop} {l : L} {f : S → S}
    (h : ∀ s' n, t < n → X.inv n s' → X.rely p t s s' → X.ok p t l s' →
      X.inv n (f s') ∧ X.guar p t n s' (f s') ∧ Q (.ok ()) (f s')) :
    X.Safe p t Q (Prog.modify l f) s :=
  safe_atomic (f := fun s ↦ (.ok (), f s)) h

end Protocol

end Async
