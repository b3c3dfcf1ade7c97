import CodeConductor.Async.Pool

/-!
# Rely–guarantee reasoning over pools of threads

A `Protocol` is what the threads of a system agree on: an **invariant** of the shared state, for
each thread a **guarantee** its steps keep and a **rely** it may assume of everybody else's steps,
and a condition `ok` the runs under consideration put on the steps themselves.

`Safe X p t Q prog s` says that thread `t` of process `p`, about to run `prog` from state `s`,
keeps its side of the protocol however the others interleave with it, and ends with `Q`. It is
defined by recursion on the computation: at every atomic step the state is an arbitrary one the
rely allows, so a fact read earlier survives a step only if the rely preserves it. Posts need no
stability on their own — the step after them quantifies over what the others did meanwhile — except
the post of a whole thread, which has to hold for as long as the run goes on.

## What soundness gives

`Protocol.Sound` collects the obligations of a system: calls made from outside, calls forked by a
step, and crashes. `System.Reaches.pool` then turns them into the invariant of every reachable
configuration, together with `Safe` for every thread in it.
-/

namespace Async

variable {L S K E E' A B P : Type}

/-- The agreement between the threads of a system. -/
structure Protocol (L S K P : Type) where
  /-- The invariant; every thread identity the state mentions is below the bound. -/
  inv : ℕ → S → Prop
  /-- What thread `t` of process `p` may assume of the others. -/
  rely : P → ℕ → S → S → Prop
  /-- What thread `t` of process `p` guarantees, the next free identity being `n`. -/
  guar : P → ℕ → ℕ → S → S → Prop
  /-- The condition on the steps of the runs considered. -/
  ok : P → ℕ → L → S → Prop
  /-- What thread `t` may assume when it is started as the background call `k`. -/
  pre : P → ℕ → K → S → Prop

namespace Protocol

/-- Thread `t` of process `p`, with `prog` left to do, keeps its side of the protocol from `s` on
and ends with `Q`. -/
def Safe (X : Protocol L S K P) (p : P) (t : ℕ) (Q : Except E A → S → Prop) :
    Prog L S K E A → S → Prop
  | .ret r, s => Q r s
  | .act l guard effect next, s =>
    ∀ s' n, t < n → X.inv n s' → X.rely p t s s' → guard s' = true → X.ok p t l s' →
      X.inv (n + (effect s' n).2.length) (effect s' n).1 ∧
      X.guar p t n s' (effect s' n).1 ∧
      (∀ i k, (effect s' n).2[i]? = some k → X.pre p (n + i) k (effect s' n).1) ∧
      X.Safe p t Q (next s' n) (effect s' n).1

variable {X : Protocol L S K P} {p : P} {t : ℕ} {s : S}

@[simp] theorem safe_ret {Q : Except E A → S → Prop} {r : Except E A} :
    X.Safe p t Q (.ret r : Prog L S K E A) s ↔ Q r s := Iff.rfl

/-! ### Structural rules -/

theorem Safe.mono {Q R : Except E A → S → Prop} {prog : Prog L S K E A}
    (h : X.Safe p t Q prog s) (hQR : ∀ r s, Q r s → R r s) : X.Safe p t R prog s := by
  induction prog generalizing s with
  | ret r => exact hQR _ _ h
  | act l guard effect next ih =>
    intro s' n ht hinv hrely hg hok
    obtain ⟨h1, h2, h3, h4⟩ := h s' n ht hinv hrely hg hok
    exact ⟨h1, h2, h3, ih s' n h4⟩

/-- Sequencing: the continuation starts in a state the first part ended in. -/
theorem Safe.bind {R : Except E A → S → Prop} {Q : Except E B → S → Prop}
    {prog : Prog L S K E A} {f : A → Prog L S K E B} (h : X.Safe p t R prog s)
    (hok : ∀ a s, R (.ok a) s → X.Safe p t Q (f a) s)
    (herr : ∀ e s, R (.error e) s → Q (.error e) s) : X.Safe p t Q (prog.bind f) s := by
  induction prog generalizing s with
  | ret r =>
    cases r with
    | ok a => exact hok _ _ h
    | error e => exact herr _ _ h
  | act l guard effect next ih =>
    intro s' n ht hinv hrely hg hok'
    obtain ⟨h1, h2, h3, h4⟩ := h s' n ht hinv hrely hg hok'
    exact ⟨h1, h2, h3, ih s' n h4⟩

/-- A fact that everybody's steps keep is still there at the end. -/
theorem Safe.stable {Q : Except E A → S → Prop} {prog : Prog L S K E A} {J : S → Prop}
    (h : X.Safe p t Q prog s) (hrely : ∀ s s', X.rely p t s s' → J s → J s')
    (hguar : ∀ n s s', X.guar p t n s s' → J s → J s') (hJ : J s) : X.Safe p t (fun r s ↦ Q r s ∧ J s) prog s := by
  induction prog generalizing s with
  | ret r => exact ⟨h, hJ⟩
  | act l guard effect next ih =>
    intro s' n ht hinv hr hg hok
    obtain ⟨h1, h2, h3, h4⟩ := h s' n ht hinv hr hg hok
    exact ⟨h1, h2, h3, ih s' n h4 (hguar _ _ _ h2 (hrely _ _ hr hJ))⟩

/-- `attempt` returns the ending, whichever it was. -/
theorem Safe.attempt {R : Except E A → S → Prop} {prog : Prog L S K E A}
    (h : X.Safe p t R prog s) :
    X.Safe p t (fun r s ↦ ∃ r', r = .ok r' ∧ R r' s)
      (prog.attempt : Prog L S K E' (Except E A)) s := by
  induction prog generalizing s with
  | ret r => exact ⟨r, rfl, h⟩
  | act l guard effect next ih =>
    intro s' n ht hinv hrely hg hok
    obtain ⟨h1, h2, h3, h4⟩ := h s' n ht hinv hrely hg hok
    exact ⟨h1, h2, h3, ih s' n h4⟩

/-- Sequencing after `attempt`, which never throws. -/
theorem Safe.attempt_bind {R : Except E A → S → Prop} {Q : Except E' B → S → Prop}
    {prog : Prog L S K E A} {f : Except E A → Prog L S K E' B} (h : X.Safe p t R prog s)
    (hf : ∀ r s, R r s → X.Safe p t Q (f r) s) : X.Safe p t Q (prog.attempt.bind f) s := by
  refine h.attempt.bind ?_ fun _ _ ⟨_, heq, _⟩ ↦ nomatch heq
  rintro r s ⟨r', heq, hr⟩
  cases heq
  exact hf r s hr

/-- `catch`: the handler starts where the error was thrown. -/
theorem Safe.catching {R Q : Except E A → S → Prop} {prog : Prog L S K E A}
    {handler : E → Prog L S K E A} (h : X.Safe p t R prog s)
    (hok : ∀ a s, R (.ok a) s → Q (.ok a) s)
    (herr : ∀ e s, R (.error e) s → X.Safe p t Q (handler e) s) :
    X.Safe p t Q (prog.catching handler) s :=
  h.attempt_bind fun r s hr ↦ match r, hr with
    | .ok a, hr => hok a s hr
    | .error e, hr => herr e s hr

/-- `finally`: the finalizer starts where the body ended, and the body's ending is kept. -/
theorem Safe.ensuring {R Q : Except E A → S → Prop} {prog : Prog L S K E A}
    {finalizer : Prog L S K E Unit} (h : X.Safe p t R prog s)
    (hfin : ∀ r s, R r s → X.Safe p t
      (fun u s ↦ match u with
        | .ok _ => Q r s
        | .error e => Q (.error e) s) finalizer s) :
    X.Safe p t Q (prog.ensuring finalizer) s :=
  h.attempt_bind fun r s hr ↦ (hfin r s hr).bind (fun _ _ hq ↦ hq) fun _ _ hq ↦ hq

/-- A thrown error is changed on its way out. -/
theorem Safe.mapError {f : E → E'} {R : Except E A → S → Prop} {Q : Except E' A → S → Prop}
    {prog : Prog L S K E A} (h : X.Safe p t R prog s) (hok : ∀ a s, R (.ok a) s → Q (.ok a) s)
    (herr : ∀ e s, R (.error e) s → Q (.error (f e)) s) : X.Safe p t Q (prog.mapError f) s := by
  induction prog generalizing s with
  | ret r =>
    cases r with
    | ok a => exact hok _ _ h
    | error e => exact herr _ _ h
  | act l guard effect next ih =>
    intro s' n ht hinv hrely hg hok'
    obtain ⟨h1, h2, h3, h4⟩ := h s' n ht hinv hrely hg hok'
    exact ⟨h1, h2, h3, ih s' n h4⟩

/-- Protocol `X` lies **under** protocol `Y` for thread `t` of process `p` while `J` holds: what `X`
asks `Y` gives, and a step that `X` allows keeps the invariant, the guarantee and `J`. -/
structure Under (X Y : Protocol L S K P) (p : P) (t : ℕ) (J : S → Prop) : Prop where
  inv : ∀ {n s}, Y.inv n s → X.inv n s
  rely : ∀ {s s'}, Y.rely p t s s' → X.rely p t s s'
  ok : ∀ {l s}, Y.ok p t l s → X.ok p t l s
  /-- The others do not take `J` away. -/
  keep : ∀ {n s s'}, Y.inv n s' → Y.rely p t s s' → J s → J s'
  step : ∀ {n m l s s'}, t < n → n ≤ m → Y.inv n s → Y.ok p t l s → J s → X.inv m s' →
    X.guar p t n s s' → Y.inv m s' ∧ Y.guar p t n s s' ∧ J s'
  pre : ∀ {m q k s}, q < m → Y.inv m s → J s → X.pre p q k s → Y.pre p q k s

/-- **Layering.** A computation that keeps its side of one protocol keeps its side of a richer one
it lies under. -/
theorem Safe.lift {Y : Protocol L S K P} {J : S → Prop} {Q : Except E A → S → Prop}
    {prog : Prog L S K E A} (h : X.Safe p t Q prog s) (hXY : X.Under Y p t J) (hs : J s) :
    Y.Safe p t (fun r s ↦ Q r s ∧ J s) prog s := by
  induction prog generalizing s with
  | ret r => exact ⟨h, hs⟩
  | act l guard effect next ih =>
    intro s' n ht hinv hrely hg hok
    obtain ⟨h1, h2, h3, h4⟩ := h s' n ht (hXY.inv hinv) (hXY.rely hrely) hg (hXY.ok hok)
    obtain ⟨h5, h6, h7⟩ :=
      hXY.step ht (Nat.le_add_right _ _) hinv hok (hXY.keep hinv hrely hs) h1 h2
    refine ⟨h5, h6, fun i k hk ↦ ?_, ih s' n h4 h7⟩
    have hlt : i < (effect s' n).2.length := (List.getElem?_eq_some_iff.1 hk).1
    exact hXY.pre (Nat.add_lt_add_left hlt n) h5 h7 (h3 i k hk)

/-- Layering without a fact to carry. -/
theorem Safe.under {Y : Protocol L S K P} {Q : Except E A → S → Prop} {prog : Prog L S K E A}
    (h : X.Safe p t Q prog s) (hXY : X.Under Y p t fun _ ↦ True) : Y.Safe p t Q prog s :=
  (h.lift hXY trivial).mono fun _ _ hr ↦ hr.1

/-! ### Posts that only speak of results -/

/-- What holds if the computation returns; nothing is said about errors. -/
def Returns (Q : A → S → Prop) (r : Except E A) (s : S) : Prop := ∀ a, r = .ok a → Q a s

@[simp] theorem returns_ok {Q : A → S → Prop} {a : A} :
    Returns (E := E) Q (.ok a) s ↔ Q a s :=
  ⟨fun h ↦ h a rfl, fun h _ ha ↦ Except.ok.inj ha ▸ h⟩

@[simp] theorem returns_error {Q : A → S → Prop} {e : E} : Returns Q (.error e) s :=
  fun _ h ↦ nomatch h

/-- Sequencing, errors passing through. -/
theorem Safe.seq {R : A → S → Prop} {Q : B → S → Prop} {prog : Prog L S K E A}
    {f : A → Prog L S K E B} (h : X.Safe p t (Returns R) prog s)
    (hok : ∀ a s, R a s → X.Safe p t (Returns Q) (f a) s) :
    X.Safe p t (Returns Q) (prog.bind f) s :=
  h.bind (fun a s ha ↦ hok a s (returns_ok.1 ha)) fun _ _ _ ↦ returns_error

theorem Safe.weaken {R Q : A → S → Prop} {prog : Prog L S K E A}
    (h : X.Safe p t (Returns R) prog s) (hRQ : ∀ a s, R a s → Q a s) :
    X.Safe p t (Returns Q) prog s :=
  h.mono fun _ s hr a ha ↦ hRQ a s (hr a ha)

/-- `Safe.lift` for results. -/
theorem Safe.lift_returns {Y : Protocol L S K P} {J : S → Prop} {Q : A → S → Prop}
    {prog : Prog L S K E A} (h : X.Safe p t (Returns Q) prog s) (hXY : X.Under Y p t J) (hs : J s) :
    Y.Safe p t (Returns fun a s ↦ Q a s ∧ J s) prog s :=
  (h.lift hXY hs).mono fun _ _ hr a ha ↦ ⟨hr.1 a ha, hr.2⟩

/-- `Safe.stable` for results. -/
theorem Safe.keeping {Q : A → S → Prop} {prog : Prog L S K E A} {J : S → Prop}
    (h : X.Safe p t (Returns Q) prog s) (hrely : ∀ s s', X.rely p t s s' → J s → J s')
    (hguar : ∀ n s s', X.guar p t n s s' → J s → J s') (hJ : J s) :
    X.Safe p t (Returns fun a s ↦ Q a s ∧ J s) prog s :=
  (h.stable hrely hguar hJ).mono fun _ _ hr a ha ↦ ⟨hr.1 a ha, hr.2⟩

/-- `attempt` returns either ending. -/
theorem Safe.attempt_seq {R : A → S → Prop} {Q : B → S → Prop} {prog : Prog L S K E A}
    {f : Except E A → Prog L S K E' B} (h : X.Safe p t (Returns R) prog s)
    (hok : ∀ a s, R a s → X.Safe p t (Returns Q) (f (.ok a)) s)
    (herr : ∀ e s, X.Safe p t (Returns Q) (f (.error e)) s) :
    X.Safe p t (Returns Q) (prog.attempt.bind f) s :=
  h.attempt_bind fun r s hr ↦ match r, hr with
    | .ok a, hr => hok a s (returns_ok.1 hr)
    | .error e, _ => herr e s

theorem Safe.mapError_returns {f : E → E'} {R : A → S → Prop} {prog : Prog L S K E A}
    (h : X.Safe p t (Returns R) prog s) : X.Safe p t (Returns R) (prog.mapError f) s :=
  h.mapError (fun _ _ ha ↦ returns_ok.2 (returns_ok.1 ha)) fun _ _ _ ↦ returns_error

theorem Safe.catching_returns {R : A → S → Prop} {prog : Prog L S K E A}
    {handler : E → Prog L S K E A} (h : X.Safe p t (Returns R) prog s)
    (herr : ∀ e s, X.Safe p t (Returns R) (handler e) s) :
    X.Safe p t (Returns R) (prog.catching handler) s :=
  h.catching (fun _ _ hr ↦ hr) fun e s _ ↦ herr e s

theorem Safe.ite {c : Prop} [Decidable c] {Q : Except E A → S → Prop} {a b : Prog L S K E A}
    (ha : c → X.Safe p t Q a s) (hb : ¬c → X.Safe p t Q b s) :
    X.Safe p t Q (if c then a else b) s := by
  split
  · exact ha ‹_›
  · exact hb ‹_›

/-! ### Computations whose ending does not matter -/

/-- The computation keeps its side of the protocol from everywhere. -/
def Keeps (X : Protocol L S K P) (p : P) (t : ℕ) (prog : Prog L S K E A) : Prop :=
  ∀ s, X.Safe p t (fun _ _ ↦ True) prog s

theorem keeps_ret (r : Except E A) : X.Keeps p t (.ret r : Prog L S K E A) := fun _ ↦ trivial

theorem Safe.keeps {Q : Except E A → S → Prop} {prog : Prog L S K E A}
    (h : ∀ s, X.Safe p t Q prog s) : X.Keeps p t prog := fun s ↦ (h s).mono fun _ _ _ ↦ trivial

theorem Keeps.under {Y : Protocol L S K P} {prog : Prog L S K E A} (h : X.Keeps p t prog)
    (hXY : X.Under Y p t fun _ ↦ True) : Y.Keeps p t prog := fun s ↦ (h s).under hXY

namespace Keeps

variable {prog : Prog L S K E A}

theorem returns (h : X.Keeps p t prog) (s : S) : X.Safe p t (Returns fun _ _ ↦ True) prog s :=
  (h s).mono fun _ _ _ _ _ ↦ trivial

theorem bind {f : A → Prog L S K E B} (h : X.Keeps p t prog) (hf : ∀ a, X.Keeps p t (f a)) :
    X.Keeps p t (prog.bind f) :=
  fun s ↦ (h s).bind (fun a s _ ↦ hf a s) fun _ _ _ ↦ trivial

theorem ite {c : Prop} [Decidable c] {a b : Prog L S K E A} (ha : X.Keeps p t a)
    (hb : X.Keeps p t b) : X.Keeps p t (if c then a else b) :=
  fun s ↦ .ite (fun _ ↦ ha s) fun _ ↦ hb s

theorem attempt (h : X.Keeps p t prog) :
    X.Keeps p t (prog.attempt : Prog L S K E' (Except E A)) :=
  fun s ↦ (h s).attempt.mono fun _ _ _ ↦ trivial

theorem mapError {f : E → E'} (h : X.Keeps p t prog) : X.Keeps p t (prog.mapError f) :=
  fun s ↦ (h s).mapError (fun _ _ _ ↦ trivial) fun _ _ _ ↦ trivial

theorem catching {handler : E → Prog L S K E A} (h : X.Keeps p t prog)
    (hf : ∀ e, X.Keeps p t (handler e)) : X.Keeps p t (prog.catching handler) :=
  fun s ↦ (h s).catching (fun _ _ _ ↦ trivial) fun e s _ ↦ hf e s

theorem ensuring {finalizer : Prog L S K E Unit} (h : X.Keeps p t prog)
    (hf : X.Keeps p t finalizer) : X.Keeps p t (prog.ensuring finalizer) :=
  fun s ↦ (h s).ensuring fun _ s _ ↦ (hf s).mono fun r _ _ ↦ by cases r <;> trivial

/-- What is known of the result, after a computation of which nothing is. -/
theorem seq {f : A → Prog L S K E B} {Q : B → S → Prop} {s : S} (h : X.Keeps p t prog)
    (hf : ∀ a s, X.Safe p t (Returns Q) (f a) s) : X.Safe p t (Returns Q) (prog.bind f) s :=
  (h.returns s).seq fun a s _ ↦ hf a s

end Keeps

/-! ### Rules for the atomic steps -/

/-- One atomic step, followed by a continuation. -/
theorem safe_atomic_bind {Q : Except E B → S → Prop} {l : L} {f : S → Except E A × S}
    {k : A → Prog L S K E B} (h : ∀ s' n, t < n → X.inv n s' → X.rely p t s s' → X.ok p t l s' →
      X.inv n (f s').2 ∧ X.guar p t n s' (f s').2 ∧
        (∀ a, (f s').1 = .ok a → X.Safe p t Q (k a) (f s').2) ∧
        ∀ e, (f s').1 = .error e → Q (.error e) (f s').2) :
    X.Safe p t Q ((Prog.atomic l f).bind k) s := by
  intro s' n ht hinv hrely _ hok
  obtain ⟨h1, h2, h3, h4⟩ := h s' n ht hinv hrely hok
  refine ⟨h1, h2, fun i k hi ↦ absurd hi (by simp), ?_⟩
  show X.Safe p t Q ((Prog.ret (f s').1).bind k) (f s').2
  match hf : (f s').1 with
  | .ok a => exact h3 a hf
  | .error e => exact h4 e hf

/-- One atomic step that ends a computation. -/
theorem safe_atomic {Q : Except E A → S → Prop} {l : L} {f : S → Except E A × S}
    (h : ∀ s' n, t < n → X.inv n s' → X.rely p t s s' → X.ok p t l s' →
      X.inv n (f s').2 ∧ X.guar p t n s' (f s').2 ∧ Q (f s').1 (f s').2) :
    X.Safe p t Q (Prog.atomic l f) s := by
  intro s' n ht hinv hrely _ hok
  obtain ⟨h1, h2, h3⟩ := h s' n ht hinv hrely hok
  exact ⟨h1, h2, fun i k hi ↦ absurd hi (by simp), h3⟩

/-- A step that only reads, followed by a continuation; reading must be allowed. -/
theorem safe_read_bind (hrefl : ∀ n s, X.guar p t n s s) {Q : Except E B → S → Prop} {l : L}
    {f : S → Except E A} {k : A → Prog L S K E B}
    (h : ∀ s' n, t < n → X.inv n s' → X.rely p t s s' → X.ok p t l s' →
      (∀ a, f s' = .ok a → X.Safe p t Q (k a) s') ∧ ∀ e, f s' = .error e → Q (.error e) s') :
    X.Safe p t Q ((Prog.read l f).bind k) s :=
  safe_atomic_bind (f := fun s ↦ (f s, s)) fun s' n ht hinv hrely hok ↦
    ⟨hinv, hrefl n s', h s' n ht hinv hrely hok⟩

/-- A step that only changes the state, followed by a continuation. -/
theorem safe_modify_bind {Q : Except E B → S → Prop} {l : L} {f : S → S}
    {k : Unit → Prog L S K E B}
    (h : ∀ s' n, t < n → X.inv n s' → X.rely p t s s' → X.ok p t l s' →
      X.inv n (f s') ∧ X.guar p t n s' (f s') ∧ X.Safe p t Q (k ()) (f s')) :
    X.Safe p t Q ((Prog.modify l f).bind k) s :=
  safe_atomic_bind (f := fun s ↦ (.ok (), f s)) fun s' n ht hinv hrely hok ↦
    have ⟨h1, h2, h3⟩ := h s' n ht hinv hrely hok
    ⟨h1, h2, fun _ _ ↦ h3, fun _ he ↦ nomatch he⟩

theorem safe_atomic_returns {Q : A → S → Prop} {l : L} {f : S → Except E A × S}
    (h : ∀ s' n, t < n → X.inv n s' → X.rely p t s s' → X.ok p t l s' →
      X.inv n (f s').2 ∧ X.guar p t n s' (f s').2 ∧ ∀ a, (f s').1 = .ok a → Q a (f s').2) :
    X.Safe p t (Returns Q) (Prog.atomic l f) s :=
  safe_atomic h

theorem safe_read_returns (hrefl : ∀ n s, X.guar p t n s s) {Q : A → S → Prop} {l : L}
    {f : S → Except E A} (h : ∀ s' n, t < n → X.inv n s' → X.rely p t s s' → X.ok p t l s' →
      ∀ a, f s' = .ok a → Q a s') :
    X.Safe p t (Returns Q) (Prog.read l f) s :=
  safe_atomic (f := fun s ↦ (f s, s)) fun s' n ht hinv hrely hok ↦
    ⟨hinv, hrefl n s', h s' n ht hinv hrely hok⟩

theorem safe_ofResult {r : Except E A} :
    X.Safe p t (Returns fun a _ ↦ r = .ok a) (Prog.ofResult r : Prog L S K E A) s :=
  fun _ ha ↦ ha

/-- A step that waits, and then ends a computation. -/
theorem safe_await_returns {Q : A → S → Prop} {l : L} {guard : S → Bool}
    {f : S → Except E A × S}
    (h : ∀ s' n, t < n → X.inv n s' → X.rely p t s s' → guard s' = true → X.ok p t l s' →
      X.inv n (f s').2 ∧ X.guar p t n s' (f s').2 ∧ ∀ a, (f s').1 = .ok a → Q a (f s').2) :
    X.Safe p t (Returns Q) (Prog.await l guard f) s := by
  intro s' n ht hinv hrely hg hok
  obtain ⟨h1, h2, h3⟩ := h s' n ht hinv hrely hg hok
  exact ⟨h1, h2, fun i k hi ↦ absurd hi (by simp), h3⟩

/-! ### Soundness -/

/-- What a system has to show to be governed by the protocol; `post t` is what thread `t` ends
with. -/
structure Sound (X : Protocol L S K P) (sys : System L S K E A P)
    (post : ℕ → Except E A → S → Prop) : Prop where
  inv_mono : ∀ {n m s}, n ≤ m → X.inv n s → X.inv m s
  rely_refl : ∀ {p t s}, X.rely p t s s
  rely_trans : ∀ {p t s₁ s₂ s₃}, X.rely p t s₁ s₂ → X.rely p t s₂ s₃ → X.rely p t s₁ s₃
  /-- The guarantee of one thread is within the rely of every other. -/
  guar_rely : ∀ {p t p' t' n m s s'}, t ≠ t' → t' < n → X.inv n s → X.inv m s' →
    X.guar p t n s s' → X.rely p' t' s s'
  post_stable : ∀ {p t} n r s s', X.inv n s' → X.rely p t s s' → post t r s → post t r s'
  /-- A call from outside keeps the protocol. -/
  call : ∀ {p t k s}, X.inv t s → sys.entry p k s = true →
    X.Safe p t (post t) (sys.body p t k) s
  /-- A call started in the background keeps the protocol. -/
  fork : ∀ {p t k n s}, t < n → X.inv n s → X.pre p t k s →
    X.Safe p t (post t) (sys.body p t k) s
  /-- A crash keeps the invariant. -/
  crash_inv : ∀ {p n s}, X.inv n s → X.inv n (sys.crash p s)
  /-- A crash is within the rely of the threads that survive it. -/
  crash_rely : ∀ {p p' t n s}, p ≠ p' → X.inv n s → X.rely p' t s (sys.crash p s)

/-- The invariant of a configuration: the shared state's, and `Safe` for every thread. -/
structure Pool (X : Protocol L S K P) (post : ℕ → Except E A → S → Prop)
    (cfg : Config L S K E A P) : Prop where
  inv : X.inv cfg.next cfg.shared
  lt : ∀ {t th}, cfg.threads t = some th → t < cfg.next
  safe : ∀ {t th}, cfg.threads t = some th →
    X.Safe th.proc t (post t) th.prog cfg.shared

theorem pool_start {post : ℕ → Except E A → S → Prop} (h : X.inv 0 s) :
    X.Pool post (Config.start s : Config L S K E A P) where
  inv := h
  lt h := nomatch h
  safe h := nomatch h

namespace Sound

variable {sys : System L S K E A P} {post : ℕ → Except E A → S → Prop}

/-- `Safe` survives whatever the rely allows. -/
theorem safe_of_rely (hX : X.Sound sys post) {Q : Except E A → S → Prop} {n : ℕ} {s' : S}
    {prog : Prog L S K E A} (h : X.Safe p t Q prog s)
    (hstable : ∀ n r s s', X.inv n s' → X.rely p t s s' → Q r s → Q r s')
    (hinv : X.inv n s') (hrely : X.rely p t s s') : X.Safe p t Q prog s' := by
  cases prog with
  | ret r => exact hstable _ _ _ _ hinv hrely h
  | act l guard effect next =>
    intro s'' n' ht hinv' hrely' hg hok
    exact h s'' n' ht hinv' (hX.rely_trans hrely hrely') hg hok

/-- One event keeps the pool's invariant. -/
theorem pool_step [DecidableEq P] (hX : X.Sound sys post) {cfg cfg' : Config L S K E A P}
    {e : Event K P} (h : X.Pool post cfg) (hok : System.Permits X.ok cfg e)
    (happ : sys.advance cfg e = some cfg') : X.Pool post cfg' := by
  cases e with
  | run t =>
    obtain ⟨p, l, guard, effect, next, hth, hg, rfl⟩ := System.advance_run happ
    obtain ⟨hinv, hguar, hpre, hsafe⟩ := h.safe hth cfg.shared cfg.next (h.lt hth) h.inv
      hX.rely_refl hg (hok _ hth l rfl)
    refine ⟨hinv, fun {t' th'} ht' ↦ ?_, fun {t' th'} ht' ↦ ?_⟩
    · show t' < cfg.next + _
      obtain hold | ⟨i, k, hk, rfl, rfl⟩ := System.spawn_cases _ ht'
      · by_cases htt : t' = t
        · subst htt
          exact Nat.lt_of_lt_of_le (h.lt hth) (Nat.le_add_right _ _)
        · rw [Function.update_of_ne htt] at hold
          exact Nat.lt_of_lt_of_le (h.lt hold) (Nat.le_add_right _ _)
      · have := (List.getElem?_eq_some_iff.1 hk).1
        omega
    · obtain hold | ⟨i, k, hk, rfl, rfl⟩ := System.spawn_cases _ ht'
      · by_cases htt : t' = t
        · subst htt
          rw [Function.update_self] at hold
          obtain rfl := Option.some.inj hold
          exact hsafe
        · rw [Function.update_of_ne htt] at hold
          exact hX.safe_of_rely (h.safe hold) hX.post_stable hinv
            (hX.guar_rely (Ne.symm htt) (h.lt hold) h.inv hinv hguar)
      · have := (List.getElem?_eq_some_iff.1 hk).1
        exact hX.fork (by omega) hinv (hpre i k hk)
  | call p k =>
    obtain ⟨hentry, rfl⟩ := System.advance_call happ
    refine ⟨hX.inv_mono (Nat.le_succ _) h.inv, fun {t' th'} ht' ↦ ?_, fun {t' th'} ht' ↦ ?_⟩ <;>
      dsimp only at ht'
    · show t' < cfg.next + 1
      by_cases htt : t' = cfg.next
      · omega
      · have hold : cfg.threads t' = some th' := by rwa [Function.update_of_ne htt] at ht'
        exact Nat.lt_succ_of_lt (h.lt hold)
    · by_cases htt : t' = cfg.next
      · subst htt
        rw [Function.update_self] at ht'
        obtain rfl := Option.some.inj ht'
        exact hX.call h.inv hentry
      · rw [Function.update_of_ne htt] at ht'
        exact h.safe ht'
  | crash p =>
    obtain rfl := System.advance_crash happ
    refine ⟨hX.crash_inv h.inv, fun {t' th'} ht' ↦ ?_, fun {t' th'} ht' ↦ ?_⟩
    · exact h.lt (Option.filter_eq_some_iff.1 ht').1
    · obtain ⟨hold, hp⟩ := Option.filter_eq_some_iff.1 ht'
      have hne : th'.proc ≠ p := by simpa using hp
      exact hX.safe_of_rely (h.safe hold) hX.post_stable (hX.crash_inv h.inv)
        (hX.crash_rely (Ne.symm hne) h.inv)

/-- **Soundness.** Every configuration reached by steps that meet the protocol's condition
satisfies the pool's invariant. -/
theorem pool [DecidableEq P] (hX : X.Sound sys post) {init cfg : Config L S K E A P}
    (h : X.Pool post init) (hr : sys.Reaches X.ok init cfg) : X.Pool post cfg := by
  induction hr with
  | refl => exact h
  | step e _ hok happ ih => exact hX.pool_step ih hok happ

/-- A fact that every step and every crash keeps holds from wherever it holds on. -/
theorem holds_of_reaches [DecidableEq P] (hX : X.Sound sys post) {J : S → Prop}
    (hguar : ∀ {p t n s s'}, X.inv n s → X.guar p t n s s' → J s → J s')
    (hcrash : ∀ {p n s}, X.inv n s → J s → J (sys.crash p s))
    {init cfg : Config L S K E A P} (h : X.Pool post init) (hJ : J init.shared)
    (hr : sys.Reaches X.ok init cfg) : J cfg.shared := by
  induction hr with
  | refl => exact hJ
  | @step mid cfg e hmid hok happ ih =>
    have hpool := hX.pool h hmid
    cases e with
    | run t =>
      obtain ⟨p, l, guard, effect, next, hth, hg, rfl⟩ := System.advance_run happ
      obtain ⟨-, hgu, -, -⟩ := hpool.safe hth mid.shared mid.next (hpool.lt hth) hpool.inv
        hX.rely_refl hg (hok _ hth l rfl)
      exact hguar hpool.inv hgu ih
    | call p k =>
      obtain ⟨-, rfl⟩ := System.advance_call happ
      exact ih
    | crash p =>
      obtain rfl := System.advance_crash happ
      exact hcrash hpool.inv ih

/-- **One thread followed through a run**, with a post of its own: what it was started for may
depend on the state it was started in. -/
theorem safe_of_reaches [DecidableEq P] (hX : X.Sound sys post) {t : ℕ} {q : P}
    {post' : Except E A → S → Prop}
    (hstable : ∀ n r s s', X.inv n s' → X.rely q t s s' → post' r s → post' r s')
    {init cfg : Config L S K E A P} (h : X.Pool post init) (ht : t < init.next)
    (hsafe : ∀ th, init.threads t = some th →
      th.proc = q ∧ X.Safe q t post' th.prog init.shared)
    (hr : sys.Reaches X.ok init cfg) {th : Thread L S K E A P} (hth : cfg.threads t = some th) :
    th.proc = q ∧ X.Safe q t post' th.prog cfg.shared := by
  have key : t < cfg.next ∧ ∀ th, cfg.threads t = some th →
      th.proc = q ∧ X.Safe q t post' th.prog cfg.shared := by
    clear hth
    induction hr with
    | refl => exact ⟨ht, hsafe⟩
    | @step mid cfg e hmid hok happ ih =>
      obtain ⟨hlt, hmidsafe⟩ := ih
      have hpool := hX.pool h hmid
      cases e with
      | run t' =>
        obtain ⟨p, l, guard, effect, next, hth', hg, rfl⟩ := System.advance_run happ
        obtain ⟨hinv, hgu, -, -⟩ := hpool.safe hth' mid.shared mid.next (hpool.lt hth') hpool.inv
          hX.rely_refl hg (hok _ hth' l rfl)
        refine ⟨Nat.lt_of_lt_of_le hlt (Nat.le_add_right _ _), fun th hth ↦ ?_⟩
        dsimp only at hth
        rw [System.spawn_lt _ _ _ hlt] at hth
        by_cases htt : t = t'
        · subst htt
          rw [Function.update_self] at hth
          obtain rfl := Option.some.inj hth
          obtain ⟨hp, hs⟩ := hmidsafe _ hth'
          subst hp
          exact ⟨rfl, (hs mid.shared mid.next hlt hpool.inv hX.rely_refl hg
            (hok _ hth' l rfl)).2.2.2⟩
        · rw [Function.update_of_ne htt] at hth
          obtain ⟨hp, hs⟩ := hmidsafe th hth
          exact ⟨hp, hX.safe_of_rely hs hstable hinv
            (hX.guar_rely (Ne.symm htt) hlt hpool.inv hinv hgu)⟩
      | call p k =>
        obtain ⟨-, rfl⟩ := System.advance_call happ
        refine ⟨Nat.lt_succ_of_lt hlt, fun th hth ↦ ?_⟩
        dsimp only at hth
        rw [Function.update_of_ne (Nat.ne_of_lt hlt)] at hth
        exact hmidsafe th hth
      | crash p =>
        obtain rfl := System.advance_crash happ
        refine ⟨hlt, fun th hth ↦ ?_⟩
        obtain ⟨hold, hp⟩ := Option.filter_eq_some_iff.1 hth
        obtain ⟨hq, hs⟩ := hmidsafe th hold
        have hne : th.proc ≠ p := by simpa using hp
        exact ⟨hq, hX.safe_of_rely hs hstable (hX.crash_inv hpool.inv)
          (hX.crash_rely (hq ▸ Ne.symm hne) hpool.inv)⟩
  exact key.2 th hth

/-- **A call followed from the moment it is made.** -/
theorem result_of_call [DecidableEq P] (hX : X.Sound sys post) {q : P} {k : K}
    {post' : Except E A → S → Prop} {a b c : Config L S K E A P}
    (hstable : ∀ n r s s', X.inv n s' → X.rely q a.next s s' → post' r s → post' r s')
    (ha : X.Pool post a)
    (hsafe : X.Safe q a.next post' (sys.body q a.next k) a.shared)
    (hcall : sys.advance a (.call q k) = some b) (hr : sys.Reaches X.ok b c) {r : Except E A}
    (hres : c.result a.next = some r) : post' r c.shared := by
  have hb := hX.pool_step (e := .call q k) ha trivial hcall
  obtain ⟨-, rfl⟩ := System.advance_call hcall
  obtain ⟨p, hth⟩ := Config.result_eq_some.1 hres
  refine (hX.safe_of_reaches hstable hb (Nat.lt_succ_self _) (fun th hth' ↦ ?_) hr hth).2
  have heq : some ⟨q, sys.body q a.next k⟩ = some th :=
    (Function.update_self a.next _ a.threads).symm.trans hth'
  obtain rfl := Option.some.inj heq
  exact ⟨rfl, hsafe⟩

end Sound

end Protocol

end Async
