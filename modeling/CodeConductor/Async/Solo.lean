import CodeConductor.Async.Alone

/-!
# Computations run to their end while nothing else moves

`p.solo s n` is how `p` ends when it is run from `s` and nobody else takes a step, `n` being the next
free thread identity. What `p` starts in the background is started, and waits. It is `none` when `p`
comes to a step that is not enabled. `Alone` is the same for computations that start nothing, as a
relation.
-/

namespace Async

variable {L S K E E' A B P : Type}

namespace Prog

/-- The ending, the state and the next free identity after a computation nobody interferes with. -/
def solo : Prog L S K E A → S → ℕ → Option (Except E A × S × ℕ)
  | ret r, s, n => some (r, s, n)
  | act _ guard effect next, s, n =>
    if guard s then (next s n).solo (effect s n).1 (n + (effect s n).2.length) else none

attribute [grind =] solo

variable {p : Prog L S K E A} {s s' : S} {n n' : ℕ}

theorem solo_ret (r : Except E A) (s : S) (n : ℕ) :
    (ret r : Prog L S K E A).solo s n = some (r, s, n) := rfl

theorem solo_bind {f : A → Prog L S K E B} {a : A} (h : p.solo s n = some (.ok a, s', n')) :
    (p.bind f).solo s n = (f a).solo s' n' := by
  induction p generalizing s n with
  | ret r =>
    obtain ⟨rfl, hs⟩ := Prod.mk.inj (Option.some.inj h)
    obtain ⟨rfl, rfl⟩ := Prod.mk.inj hs
    rfl
  | act l guard effect next ih =>
    rw [solo] at h
    rw [act_bind, solo]
    split at h
    · rename_i hguard
      rw [if_pos hguard]
      exact ih s n h
    · exact nomatch h

theorem solo_attempt {r : Except E A} (h : p.solo s n = some (r, s', n')) :
    (p.attempt : Prog L S K E' (Except E A)).solo s n = some (.ok r, s', n') := by
  induction p generalizing s n with
  | ret r =>
    obtain ⟨rfl, hs⟩ := Prod.mk.inj (Option.some.inj h)
    obtain ⟨rfl, rfl⟩ := Prod.mk.inj hs
    rfl
  | act l guard effect next ih =>
    rw [solo] at h
    rw [act_attempt, solo]
    split at h
    · rename_i hguard
      rw [if_pos hguard]
      exact ih s n h
    · exact nomatch h

/-- `finally`. -/
theorem solo_ensuring {finalizer : Prog L S K E Unit} {r : Except E A} {s'' : S} {n'' : ℕ}
    (h : p.solo s n = some (r, s', n')) (hfin : finalizer.solo s' n' = some (.ok (), s'', n'')) :
    (p.ensuring finalizer).solo s n = some (r, s'', n'') := by
  rw [ensuring, solo_bind (solo_attempt h), solo_bind hfin]
  rfl

theorem solo_atomic (l : L) (f : S → Except E A × S) (s : S) (n : ℕ) :
    (atomic l f : Prog L S K E A).solo s n = some ((f s).1, (f s).2, n) := rfl

theorem solo_read (l : L) (f : S → Except E A) (s : S) (n : ℕ) :
    (read l f : Prog L S K E A).solo s n = some (f s, s, n) := rfl

theorem solo_modify (l : L) (f : S → S) (s : S) (n : ℕ) :
    (modify l f : Prog L S K E Unit).solo s n = some (.ok (), f s, n) := rfl

theorem solo_await (l : L) {guard : S → Bool} (f : S → Except E A × S) (h : guard s = true) :
    (await l guard f : Prog L S K E A).solo s n = some ((f s).1, (f s).2, n) := by
  rw [await, solo, if_pos h]
  rfl

theorem solo_fork (l : L) (k : S → ℕ → K) (f : S → ℕ → S) (s : S) (n : ℕ) :
    (fork l k f : Prog L S K E Unit).solo s n = some (.ok (), f s n, n + 1) := rfl

/-! ### The steps on the way -/

/-- The labels of the steps `p` takes. -/
def labels : Prog L S K E A → S → ℕ → List L
  | ret _, _, _ => []
  | act l guard effect next, s, n =>
    if guard s then l :: (next s n).labels (effect s n).1 (n + (effect s n).2.length) else []

attribute [grind =] labels

theorem labels_bind {f : A → Prog L S K E B} {a : A} (h : p.solo s n = some (.ok a, s', n')) :
    (p.bind f).labels s n = p.labels s n ++ (f a).labels s' n' := by
  induction p generalizing s n with
  | ret r =>
    obtain ⟨rfl, hs⟩ := Prod.mk.inj (Option.some.inj h)
    obtain ⟨rfl, rfl⟩ := Prod.mk.inj hs
    rfl
  | act l guard effect next ih =>
    rw [solo] at h
    rw [act_bind, labels, labels]
    split at h
    · rename_i hguard
      rw [if_pos hguard, if_pos hguard, List.cons_append, ih s n h]
    · exact nomatch h

theorem labels_subset_bind (f : A → Prog L S K E B) : p.labels s n ⊆ (p.bind f).labels s n := by
  induction p generalizing s n with
  | ret r => exact List.nil_subset _
  | act l guard effect next ih =>
    rw [act_bind, labels, labels]
    split
    · exact List.cons_subset_cons _ (ih s n)
    · exact List.Subset.refl _

theorem labels_attempt :
    (p.attempt : Prog L S K E' (Except E A)).labels s n = p.labels s n := by
  induction p generalizing s n with
  | ret r => rfl
  | act l guard effect next ih =>
    rw [act_attempt, labels, labels]
    split
    · exact congrArg _ (ih s n)
    · rfl

/-- No step on the way is one of the excluded. -/
def Avoids (excluded : L → Prop) (p : Prog L S K E A) (s : S) (n : ℕ) : Prop :=
  ∀ l ∈ p.labels s n, ¬excluded l

namespace Avoids

variable {excluded : L → Prop}

/-- What comes after the first part. -/
theorem of_bind {f : A → Prog L S K E B} {a : A} (h : (p.bind f).Avoids excluded s n)
    (hp : p.solo s n = some (.ok a, s', n')) : (f a).Avoids excluded s' n' := fun l hl ↦
  h l (labels_bind hp ▸ List.mem_append_right _ hl)

/-- The first part. -/
theorem left {f : A → Prog L S K E B} (h : (p.bind f).Avoids excluded s n) :
    p.Avoids excluded s n := fun l hl ↦ h l (labels_subset_bind f hl)

/-- The body of a `finally`. -/
theorem of_ensuring {finalizer : Prog L S K E Unit}
    (h : (p.ensuring finalizer).Avoids excluded s n) :
    p.Avoids excluded s n := fun l hl ↦ h.left l (labels_attempt (p := p) ▸ hl)

end Avoids

/-! ### Computations that only have to be let through -/

/-- Every step is enabled, starts nothing, and relates the state before it to the state after. -/
def Plain (R : S → S → Prop) : Prog L S K E A → Prop
  | ret _ => True
  | act _ guard effect next => ∀ s n, guard s = true ∧ (effect s n).2 = [] ∧ R s (effect s n).1 ∧
    (next s n).Plain R

namespace Plain

variable {R : S → S → Prop}

theorem ret (r : Except E A) : (Prog.ret r : Prog L S K E A).Plain R := trivial

theorem bind {f : A → Prog L S K E B} (h : p.Plain R) (hf : ∀ a, (f a).Plain R) :
    (p.bind f).Plain R := by
  induction p with
  | ret r =>
    cases r with
    | ok a => exact hf a
    | error e => exact trivial
  | act l guard effect next ih =>
    intro s n
    obtain ⟨hguard, hstart, hR, hnext⟩ := h s n
    exact ⟨hguard, hstart, hR, ih s n hnext⟩

theorem mapError {f : E → E'} (h : p.Plain R) : (p.mapError f).Plain R := by
  induction p with
  | ret r => cases r <;> exact trivial
  | act l guard effect next ih =>
    intro s n
    obtain ⟨hguard, hstart, hR, hnext⟩ := h s n
    exact ⟨hguard, hstart, hR, ih s n hnext⟩

theorem attempt (h : p.Plain R) : (p.attempt : Prog L S K E' (Except E A)).Plain R := by
  induction p with
  | ret r => exact trivial
  | act l guard effect next ih =>
    intro s n
    obtain ⟨hguard, hstart, hR, hnext⟩ := h s n
    exact ⟨hguard, hstart, hR, ih s n hnext⟩

theorem ite {c : Prop} [Decidable c] {q : Prog L S K E A} (h : p.Plain R) (hq : q.Plain R) :
    (if c then p else q).Plain R := by
  split <;> assumption

theorem atomic {l : L} {f : S → Except E A × S} (h : ∀ s, R s (f s).2) :
    (Prog.atomic l f : Prog L S K E A).Plain R :=
  fun s _ ↦ ⟨rfl, rfl, h s, trivial⟩

theorem read (hrefl : ∀ s, R s s) {l : L} {f : S → Except E A} :
    (Prog.read l f : Prog L S K E A).Plain R :=
  fun s _ ↦ ⟨rfl, rfl, hrefl s, trivial⟩

/-- It ends, and what every step keeps is kept from the first state to the last. -/
theorem exists_solo (hrefl : ∀ s, R s s) (htrans : ∀ a b c, R a b → R b c → R a c) (h : p.Plain R)
    (s : S) (n : ℕ) : ∃ r s', p.solo s n = some (r, s', n) ∧ R s s' := by
  induction p generalizing s n with
  | ret r => exact ⟨r, s, rfl, hrefl s⟩
  | act l guard effect next ih =>
    obtain ⟨hguard, hstart, hR, hnext⟩ := h s n
    obtain ⟨r, s', hsolo, hR'⟩ := ih s n hnext (effect s n).1 n
    refine ⟨r, s', ?_, htrans _ _ _ hR hR'⟩
    rw [solo, if_pos hguard, hstart]
    exact hsolo

end Plain

/-! ### Running alone is a run -/

/-- A thread run alone to its end: nobody else moves, and nothing but the threads it started is
new. -/
theorem solo_advanceAll [DecidableEq P] (sys : System L S K E A P) {r : Except E A}
    (h : p.solo s n = some (r, s', n')) {cfg : Config L S K E A P} {t : ℕ} {q : P} (ht : t < n)
    (hs : cfg.shared = s) (hn : cfg.next = n) (hth : cfg.threads t = some ⟨q, p⟩) :
    ∃ k cfg', sys.advanceAll (fun _ _ _ _ ↦ true) cfg (List.replicate k (.run t)) = some cfg' ∧
      cfg'.shared = s' ∧ cfg'.next = n' ∧ cfg'.result t = some r ∧
        ∀ i < n, i ≠ t → cfg'.threads i = cfg.threads i := by
  induction p generalizing cfg s n with
  | ret r =>
    obtain ⟨rfl, heq⟩ := Prod.mk.inj (Option.some.inj h)
    obtain ⟨rfl, rfl⟩ := Prod.mk.inj heq
    exact ⟨0, cfg, rfl, hs, hn, Config.result_eq_some.2 ⟨q, hth⟩, fun _ _ _ ↦ rfl⟩
  | act l guard effect next ih =>
    subst hs
    subst hn
    rw [solo] at h
    split at h
    case isFalse => exact nomatch h
    case isTrue hguard =>
      let out := effect cfg.shared cfg.next
      let stepped : Config L S K E A P :=
        { shared := out.1
          threads := sys.spawn q cfg.next out.2
            (Function.update cfg.threads t (some ⟨q, next cfg.shared cfg.next⟩))
          next := cfg.next + out.2.length }
      have hstep : sys.advance cfg (.run t) = some stepped := by
        simp only [System.advance, hth, hguard, if_true]
        rfl
      have hthread : stepped.threads t = some ⟨q, next cfg.shared cfg.next⟩ := by
        show sys.spawn q cfg.next out.2 _ t = _
        rw [System.spawn_lt q _ _ ht, Function.update_self]
      obtain ⟨k, cfg', hrun, hshared, hnext, hresult, hothers⟩ :=
        ih cfg.shared cfg.next h (Nat.lt_of_lt_of_le ht (Nat.le_add_right _ _)) rfl rfl hthread
      have hpermits : System.permits (fun _ _ _ _ ↦ true) cfg (.run t) = true := by
        simp only [System.permits, hth]
      refine ⟨k + 1, cfg', ?_, hshared, hnext, hresult, fun i hi hne ↦ ?_⟩
      · rw [List.replicate_succ, System.advanceAll, if_pos hpermits, hstep]
        exact hrun
      · rw [hothers i (Nat.lt_of_lt_of_le hi (Nat.le_add_right _ _)) hne]
        show sys.spawn q cfg.next out.2 _ i = _
        rw [System.spawn_lt q _ _ hi, Function.update_of_ne hne]

end Prog

end Async
