import CodeConductor.Async.RelyGuarantee

/-!
# Conditions on events, and computations run alone

Two complements to the pools.

* `System.ReachesBy` collects the runs every **event** of which is allowed, so that a crash can be
  excluded in a state where a thread is half way through something. `Protocol.Sound` already covers
  the steps of such a run; a fact that only the allowed crashes keep is carried along the run by
  `Sound.holds_of_reachesBy`.
* `Alone p s r s'` says that `p`, run from `s` while nobody else moves, ends with `r` in `s'`. It is
  what "a later caller can …" means of a computation: `Alone.advanceAll` turns it into a run.
-/

namespace Async

variable {L S K E E' A B P : Type}

/-! ### Runs under a condition on events -/

namespace System

variable [DecidableEq P]

/-- The configurations reached from `init` by runs all of whose events are allowed. -/
inductive ReachesBy (sys : System L S K E A P) (allows : Config L S K E A P → Event K P → Prop)
    (init : Config L S K E A P) : Config L S K E A P → Prop
  | refl : ReachesBy sys allows init init
  | step {cfg cfg' : Config L S K E A P} (e : Event K P) : ReachesBy sys allows init cfg →
      allows cfg e → sys.advance cfg e = some cfg' → ReachesBy sys allows init cfg'

/-- Run a list of events from a configuration, as long as they are allowed. -/
def follow (sys : System L S K E A P) (allows : Config L S K E A P → Event K P → Bool)
    (cfg : Config L S K E A P) : List (Event K P) → Option (Config L S K E A P)
  | [] => some cfg
  | e :: es =>
    if allows cfg e then (sys.advance cfg e).bind fun cfg' ↦ sys.follow allows cfg' es else none

variable {sys : System L S K E A P} {init a b : Config L S K E A P}

theorem ReachesBy.trans {allows : Config L S K E A P → Event K P → Prop}
    (hia : sys.ReachesBy allows init a) (hab : sys.ReachesBy allows a b) :
    sys.ReachesBy allows init b := by
  induction hab with
  | refl => exact hia
  | step e _ hallows happ ih => exact .step e ih hallows happ

/-- A list of allowed events that can be performed is a run of allowed events. -/
theorem reachesBy_of_follow {allows : Config L S K E A P → Event K P → Bool}
    {es : List (Event K P)} (h : sys.follow allows a es = some b) :
    sys.ReachesBy (fun cfg e ↦ allows cfg e = true) a b := by
  induction es generalizing a with
  | nil =>
    obtain rfl := Option.some.inj h
    exact .refl
  | cons e es ih =>
    rw [follow] at h
    split at h
    · rename_i hallows
      obtain ⟨m, hm, hb⟩ := Option.bind_eq_some_iff.1 h
      exact (ReachesBy.step e .refl hallows hm).trans (ih hb)
    · exact nomatch h

/-- A run of allowed events is a run whose steps meet what allowed events guarantee. -/
theorem ReachesBy.reaches {allows : Config L S K E A P → Event K P → Prop}
    {ok : P → ℕ → L → S → Prop} (hok : ∀ cfg e, allows cfg e → Permits ok cfg e)
    (h : sys.ReachesBy allows init a) : sys.Reaches ok init a := by
  induction h with
  | refl => exact .refl
  | step e _ hallows happ ih => exact .step e ih (hok _ e hallows) happ

end System

/-- A fact that every step keeps, and every allowed crash, holds from wherever it holds on. -/
theorem Protocol.Sound.holds_of_reachesBy [DecidableEq P] {X : Protocol L S K P}
    {sys : System L S K E A P} {post : ℕ → Except E A → S → Prop} (hX : X.Sound sys post)
    {allows : Config L S K E A P → Event K P → Prop}
    (hok : ∀ cfg e, allows cfg e → System.Permits X.ok cfg e) {J : S → Prop}
    (hguar : ∀ {p t n s s'}, X.inv n s → X.guar p t n s s' → J s → J s')
    (hcrash : ∀ {p cfg}, X.inv cfg.next cfg.shared → allows cfg (.crash p) → J cfg.shared →
      J (sys.crash p cfg.shared))
    {init cfg : Config L S K E A P} (h : X.Pool post init) (hJ : J init.shared)
    (hr : sys.ReachesBy allows init cfg) : J cfg.shared := by
  induction hr with
  | refl => exact hJ
  | @step mid cfg e hmid hallows happ ih =>
    have hpool := hX.pool h (hmid.reaches hok)
    cases e with
    | run t =>
      obtain ⟨p, l, guard, effect, next, hth, hg, rfl⟩ := System.advance_run happ
      obtain ⟨-, hgu, -, -⟩ := hpool.safe hth mid.shared mid.next (hpool.lt hth) hpool.inv
        hX.rely_refl hg (hok _ _ hallows _ hth l rfl)
      exact hguar hpool.inv hgu ih
    | call p k =>
      obtain ⟨-, rfl⟩ := System.advance_call happ
      exact ih
    | crash p =>
      obtain rfl := System.advance_crash happ
      exact hcrash hpool.inv hallows ih

/-! ### Running alone -/

/-- `p`, run from `s` while nobody else moves, starts nothing and ends with `r` in `s'`. -/
inductive Alone : Prog L S K E A → S → Except E A → S → Prop
  | ret (r : Except E A) (s : S) : Alone (.ret r) s r s
  | act {l : L} {guard : S → Bool} {effect : S → ℕ → S × List K} {next : S → ℕ → Prog L S K E A}
      {s s' s'' : S} {r : Except E A} : guard s = true → (∀ n, effect s n = (s', [])) →
      (∀ n, Alone (next s n) s' r s'') → Alone (.act l guard effect next) s r s''

namespace Alone

variable {p : Prog L S K E A} {s s' s'' : S}

theorem bind {a : A} {f : A → Prog L S K E B} {r : Except E B} (h : Alone p s (.ok a) s')
    (hf : Alone (f a) s' r s'') : Alone (p.bind f) s r s'' := by
  generalize hr : (Except.ok a : Except E A) = r₀ at h
  induction h with
  | ret r₀ s =>
    subst hr
    exact hf
  | act hg he _ ih => exact .act hg he fun n ↦ ih n hf hr

/-- A thrown error skips the continuation. -/
theorem bind_error {e : E} {f : A → Prog L S K E B} (h : Alone p s (.error e) s') :
    Alone (p.bind f) s (.error e) s' := by
  generalize hr : (Except.error e : Except E A) = r₀ at h
  induction h with
  | ret r₀ s =>
    subst hr
    exact .ret _ _
  | act hg he _ ih => exact .act hg he fun n ↦ ih n hr

theorem attempt {r : Except E A} (h : Alone p s r s') :
    Alone (p.attempt : Prog L S K E' (Except E A)) s (.ok r) s' := by
  induction h with
  | ret r s => exact .ret _ _
  | act hg he _ ih => exact .act hg he ih

/-- `catch` is not entered. -/
theorem catching {a : A} {handler : E → Prog L S K E A} (h : Alone p s (.ok a) s') :
    Alone (p.catching handler) s (.ok a) s' :=
  h.attempt.bind (.ret _ _)

theorem atomic {l : L} {f : S → Except E A × S} {r : Except E A} (h : f s = (r, s')) :
    Alone (Prog.atomic l f : Prog L S K E A) s r s' := by
  have hr : (f s).1 = r := congrArg Prod.fst h
  have hs : (f s).2 = s' := congrArg Prod.snd h
  exact .act rfl (fun _ ↦ congrArg (·, []) hs) fun _ ↦ hr ▸ .ret _ _

theorem read {l : L} {f : S → Except E A} {r : Except E A} (h : f s = r) :
    Alone (Prog.read l f : Prog L S K E A) s r s :=
  atomic (f := fun s ↦ (f s, s)) (h ▸ rfl)

theorem modify {l : L} {f : S → S} (h : f s = s') :
    Alone (Prog.modify l f : Prog L S K E Unit) s (.ok ()) s' :=
  atomic (f := fun s ↦ (.ok (), f s)) (h ▸ rfl)

theorem await {l : L} {guard : S → Bool} {f : S → Except E A × S} {r : Except E A}
    (hg : guard s = true) (h : f s = (r, s')) :
    Alone (Prog.await l guard f : Prog L S K E A) s r s' := by
  have hr : (f s).1 = r := congrArg Prod.fst h
  have hs : (f s).2 = s' := congrArg Prod.snd h
  exact .act hg (fun _ ↦ congrArg (·, []) hs) fun _ ↦ hr ▸ .ret _ _

/-- **Running alone is a run.** A thread about to run `p` and then `f` gets to `f a`. -/
theorem advanceAll [DecidableEq P] (sys : System L S K E B P) {a : A} {f : A → Prog L S K E B}
    (h : Alone p s (.ok a) s') {cfg : Config L S K E B P} {t : ℕ} {q : P} (hs : cfg.shared = s)
    (hth : cfg.threads t = some ⟨q, p.bind f⟩) :
    ∃ k, sys.advanceAll (fun _ _ _ _ ↦ true) cfg (List.replicate k (.run t)) =
      some ⟨s', Function.update cfg.threads t (some ⟨q, f a⟩), cfg.next⟩ := by
  generalize hr : (Except.ok a : Except E A) = r at h
  induction h generalizing cfg with
  | ret r s =>
    subst hr
    subst hs
    refine ⟨0, ?_⟩
    have hself : Function.update cfg.threads t (some ⟨q, f a⟩) = cfg.threads :=
      Function.update_eq_self_iff.2 hth.symm
    rw [hself]
    rfl
  | @act l guard effect next s s₁ s₂ r hg he _ ih =>
    subst hs
    have hstep : sys.advance cfg (.run t) =
        some ⟨s₁, Function.update cfg.threads t (some ⟨q, (next cfg.shared cfg.next).bind f⟩),
          cfg.next⟩ := by
      have hth' : cfg.threads t =
          some ⟨q, .act l guard effect fun s n ↦ (next s n).bind f⟩ := hth
      simp only [System.advance, hth', hg, if_true, he]
      rfl
    let stepped : Config L S K E B P := ⟨s₁,
      Function.update cfg.threads t (some ⟨q, (next cfg.shared cfg.next).bind f⟩), cfg.next⟩
    have hthread : stepped.threads t = some ⟨q, (next cfg.shared cfg.next).bind f⟩ :=
      Function.update_self ..
    obtain ⟨k, hk⟩ := ih cfg.next rfl hthread hr
    refine ⟨k + 1, ?_⟩
    have hok : System.permits (fun _ _ _ _ ↦ true) cfg (.run t) = true := by
      have hth' : cfg.threads t =
          some ⟨q, .act l guard effect fun s n ↦ (next s n).bind f⟩ := hth
      simp only [System.permits, hth']
    rw [List.replicate_succ, System.advanceAll, if_pos hok, hstep, Option.bind_some, hk,
      Function.update_idem]

/-- **A call that runs alone** from the moment it is made. -/
theorem advanceAll_call [DecidableEq P] (sys : System L S K E B P) {a : A}
    {f : A → Prog L S K E B} {cfg : Config L S K E B P} {q : P} {k : K}
    (h : Alone p cfg.shared (.ok a) s') (hentry : sys.entry q k cfg.shared = true)
    (hbody : sys.body q cfg.next k = p.bind f) :
    ∃ j, sys.advanceAll (fun _ _ _ _ ↦ true) cfg
        (.call q k :: List.replicate j (.run cfg.next)) =
      some ⟨s', Function.update cfg.threads cfg.next (some ⟨q, f a⟩), cfg.next + 1⟩ := by
  let called : Config L S K E B P :=
    ⟨cfg.shared, Function.update cfg.threads cfg.next (some ⟨q, p.bind f⟩), cfg.next + 1⟩
  have hcall : sys.advance cfg (.call q k) = some called := by
    rw [System.advance, if_pos hentry, System.spawn, System.spawn, hbody]
  have hthread : called.threads cfg.next = some ⟨q, p.bind f⟩ := Function.update_self ..
  obtain ⟨j, hj⟩ : ∃ j, sys.advanceAll (fun _ _ _ _ ↦ true) called
      (List.replicate j (.run cfg.next)) =
        some ⟨s', Function.update called.threads cfg.next (some ⟨q, f a⟩), called.next⟩ :=
    h.advanceAll sys rfl hthread
  refine ⟨j, ?_⟩
  have hok : System.permits (fun _ _ _ _ ↦ true) cfg (.call q k : Event K P) = true := rfl
  rw [System.advanceAll, if_pos hok, hcall, Option.bind_some, hj, Function.update_idem]

end Alone

end Async
