import CodeConductor.Async.Alone

/-!
# Computations that only read

`p.observe s` is what `p` ends with when the state stays `s` all along. For a computation that only
reads it is what running alone comes to (`Prog.ReadOnly.alone`), and a total function of the state:
a property of what the computation returns is a property of `observe`.
-/

namespace Async

variable {L S K E E' A B : Type}

namespace Prog

/-- The ending of a computation that finds the state `s` at each of its steps. -/
def observe : Prog L S K E A → S → Except E A
  | ret r, _ => r
  | act _ _ _ next, s => (next s 0).observe s

/-- The computation neither waits nor changes anything nor starts anything. -/
def ReadOnly : Prog L S K E A → Prop
  | ret _ => True
  | act _ guard effect next => ∀ s n, guard s = true ∧ effect s n = (s, []) ∧ next s n = next s 0 ∧
    (next s n).ReadOnly

variable {p : Prog L S K E A} {s : S}

/-! ### What is observed -/

@[simp] theorem observe_ret (r : Except E A) : (ret r : Prog L S K E A).observe s = r := rfl

@[simp] theorem observe_ofResult (r : Except E A) :
    (ofResult r : Prog L S K E A).observe s = r := rfl

@[simp] theorem observe_read (l : L) (f : S → Except E A) :
    (read l f : Prog L S K E A).observe s = f s := rfl

/-- One after the other, in the same state. -/
theorem observe_bind (f : A → Prog L S K E B) :
    (p.bind f).observe s = (p.observe s).bind fun a ↦ (f a).observe s := by
  induction p with
  | ret r => cases r <;> rfl
  | act l guard effect next ih => exact ih s 0

/-- A sequence returns what its second part does after the first one returned. -/
theorem observe_bind_ok {f : A → Prog L S K E B} {b : B} :
    (p.bind f).observe s = .ok b ↔ ∃ a, p.observe s = .ok a ∧ (f a).observe s = .ok b := by
  rw [observe_bind]
  cases p.observe s with
  | error e => exact ⟨fun h ↦ (nomatch h), fun ⟨_, h, _⟩ ↦ (nomatch h)⟩
  | ok a => exact ⟨fun h ↦ ⟨a, rfl, h⟩, fun ⟨_, h, hb⟩ ↦ by cases h; exact hb⟩

/-- A check in the middle of a sequence was passed, if the sequence returns. -/
theorem of_observe_check_ok {c : Prop} [Decidable c] {e : E} {rest : Unit → Prog L S K E B} {b : B}
    (h : (if c then throw (m := Prog L S K E) e >>= rest else rest ()).observe s = .ok b) :
    ¬c ∧ (rest ()).observe s = .ok b := by
  split at h
  · exact nomatch h
  · rename_i hc
    exact ⟨hc, h⟩

/-! ### Reading alone -/

namespace ReadOnly

theorem ret (r : Except E A) : (Prog.ret r : Prog L S K E A).ReadOnly := trivial

theorem read (l : L) (f : S → Except E A) : (Prog.read l f : Prog L S K E A).ReadOnly :=
  fun _ _ ↦ ⟨rfl, rfl, rfl, trivial⟩

theorem bind {f : A → Prog L S K E B} (h : p.ReadOnly) (hf : ∀ a, (f a).ReadOnly) :
    (p.bind f).ReadOnly := by
  induction p with
  | ret r =>
    cases r with
    | ok a => exact hf a
    | error e => exact trivial
  | act l guard effect next ih =>
    intro s n
    obtain ⟨hguard, heffect, hnext, hrest⟩ := h s n
    exact ⟨hguard, heffect, congrArg (Prog.bind · f) hnext, ih s n hrest⟩

theorem ite {c : Prop} [Decidable c] {q : Prog L S K E A} (h : p.ReadOnly) (hq : q.ReadOnly) :
    (if c then p else q).ReadOnly := by
  split <;> assumption

theorem check {c : Prop} [Decidable c] {e : E} {rest : Unit → Prog L S K E A}
    (h : (rest ()).ReadOnly) :
    (if c then throw (m := Prog L S K E) e >>= rest else rest ()).ReadOnly := by
  split
  · exact trivial
  · exact h

/-- **Reading alone** ends with what is observed and leaves the state as it is. -/
theorem alone (h : p.ReadOnly) (s : S) : Alone p s (p.observe s) s := by
  induction p with
  | ret r => exact .ret r s
  | act l guard effect next ih =>
    have hstep := h s
    refine .act (hstep 0).1 (fun n ↦ (hstep n).2.1) fun n ↦ ?_
    rw [(hstep n).2.2.1]
    exact ih s 0 (hstep 0).2.2.2

end ReadOnly

end Prog

end Async
