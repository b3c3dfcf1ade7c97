import CodeConductor.Console.Server

/-!
# Idempotency of the console's mutations

`ConsoleIdempotent` is what the keys are for. The underlying operation is called once for a key
within a window of `idempotencyTtl`, whatever the mutations; and what is sent, as a result, within
the window of a remembered result is that result, for that mutation.

It holds in the runs in which a key is looked up only when no request with this key is on its way,
and no operation called for it within the window has failed. The code does not see to that. A key is
remembered when the operation has succeeded, so that a second request may find nothing while the
operation of the first one runs; and an operation that fails leaves nothing to find.
-/

namespace CodeConductor

open Async Async.Prog Async.Protocol

variable {D : Type}

/-- A configuration of the server. -/
abbrev ConsoleConfig (D : Type) :=
  Config ConsoleStep (ConsoleState D) ConsoleCall ConsoleError (Option ConsoleResponse) Unit

/-! ### What is promised -/

/-- What the keys promise of a state of the server. -/
structure ConsoleIdempotent (s : ConsoleState D) : Prop where
  /-- Two calls of an operation for one key are a window apart; the newest one is first. -/
  once : s.executed.Pairwise fun e e' ↦ e.key = e'.key → e'.time + idempotencyTtl ≤ e.time
  /-- What is sent within the window of a remembered result is that result. -/
  same : ∀ r ∈ s.stored, ∀ a ∈ s.sent, a.key = r.key → r.time ≤ a.time →
    a.time < r.time + idempotencyTtl → a.fingerprint = r.fingerprint ∧ a.body = r.body
  /-- What is sent is within the window of a remembered result. -/
  remembered : ∀ a ∈ s.sent, ∃ r ∈ s.stored,
    r.key = a.key ∧ r.time ≤ a.time ∧ a.time < r.time + idempotencyTtl

/-- The keys keep their promise, in every run from the state whose steps meet `ok`, and what a
request is answered is what was sent for it. -/
structure MutationsIdempotent (deps : ConsoleDependencies D) (init : ConsoleState D)
    (ok : Unit → ℕ → ConsoleStep → ConsoleState D → Prop) : Prop where
  state : ∀ cfg : ConsoleConfig D, (consoleSystem deps).Reaches ok (.start init) cfg →
    ConsoleIdempotent cfg.shared
  answer : ∀ cfg : ConsoleConfig D, (consoleSystem deps).Reaches ok (.start init) cfg →
    ∀ call body, cfg.result call = some (.ok (some (.result body))) →
      ∃ a ∈ cfg.shared.sent, a.call = call ∧ a.body = body

/-- A server that has answered nothing yet. -/
def freshConsole (csrfTokens : List (String × Timestamp)) (now : Timestamp) (dependencies : D) :
    ConsoleState D :=
  { csrfTokens, now, dependencies }

/-- The operation succeeded, or its window is over. -/
def ConsoleState.isOver (s : ConsoleState D) (e : OperationCall) : Bool :=
  (s.stored.any fun r ↦ decide (r.call = e.call ∧ r.key = e.key ∧ e.time ≤ r.time)) ||
    decide (e.time + idempotencyTtl ≤ s.now)

/-- A key is looked up when no request with it is on its way, and no operation called for it within
the window has failed. -/
def looksUpSettled : Unit → ℕ → ConsoleStep → ConsoleState D → Bool
  | _, _, .lookup key, s =>
    (s.pending.all fun p ↦ decide (p.2 ≠ key)) &&
      s.executed.all fun e ↦ decide (e.key ≠ key) || s.isOver e
  | _, _, _, _ => true

/-! ### The invariant -/

/-- What holds of the server whatever the requests do. -/
structure ConsoleInv (s : ConsoleState D) : Prop extends ConsoleIdempotent s where
  /-- The requests on their way have distinct keys. -/
  keys : (s.pending.map Prod.snd).Nodup
  /-- A result is remembered for its window. -/
  kept : ∀ r ∈ s.stored, s.now < r.time + idempotencyTtl →
    s.entry r.key = some ⟨r.time + idempotencyTtl, r.fingerprint, r.body⟩
  /-- Nothing else is remembered. -/
  entries : ∀ entry ∈ s.idempotency, ∃ r ∈ s.stored, r.key = entry.1 ∧
    entry.2 = ⟨r.time + idempotencyTtl, r.fingerprint, r.body⟩
  past : (∀ r ∈ s.stored, r.time ≤ s.now) ∧ ∀ a ∈ s.sent, a.time ≤ s.now

/-- What call `t` may assume of the others. -/
structure ConsoleRely (t : ℕ) (s s' : ConsoleState D) : Prop where
  now : s.now ≤ s'.now
  pending : ∀ key, (t, key) ∈ s.pending ↔ (t, key) ∈ s'.pending
  /-- While a key is taken nobody else uses it. -/
  executed : ∀ e ∈ s'.executed, (t, e.key) ∈ s.pending → e ∈ s.executed
  stored : ∀ r ∈ s'.stored, (t, r.key) ∈ s.pending → r ∈ s.stored
  sent : s.sent ⊆ s'.sent

/-- What call `t` guarantees. -/
structure ConsoleGuar (t : ℕ) (s s' : ConsoleState D) : Prop where
  now : s.now ≤ s'.now
  pending : ∀ call key, call ≠ t → ((call, key) ∈ s.pending ↔ (call, key) ∈ s'.pending)
  executed : ∀ e ∈ s'.executed, e ∈ s.executed ∨ (t, e.key) ∈ s.pending
  stored : ∀ r ∈ s'.stored, r ∈ s.stored ∨ (t, r.key) ∈ s.pending
  sent : s.sent ⊆ s'.sent

/-- The agreement of the requests. -/
def consoleProtocol (D : Type) : Protocol ConsoleStep (ConsoleState D) ConsoleCall Unit where
  inv _ := ConsoleInv
  rely _ t := ConsoleRely t
  guar _ t _ := ConsoleGuar t
  ok p t l s := looksUpSettled p t l s = true
  pre _ _ _ _ := False

theorem ConsoleRely.refl (t : ℕ) (s : ConsoleState D) : ConsoleRely t s s where
  now := Nat.le_refl _
  pending _ := Iff.rfl
  executed _ h _ := h
  stored _ h _ := h
  sent := List.Subset.refl _

theorem ConsoleRely.trans {t : ℕ} {a b c : ConsoleState D} (hab : ConsoleRely t a b)
    (hbc : ConsoleRely t b c) : ConsoleRely t a c where
  now := Nat.le_trans hab.now hbc.now
  pending key := (hab.pending key).trans (hbc.pending key)
  executed e h hkey := hab.executed e (hbc.executed e h ((hab.pending _).1 hkey)) hkey
  stored r h hkey := hab.stored r (hbc.stored r h ((hab.pending _).1 hkey)) hkey
  sent := List.Subset.trans hab.sent hbc.sent

theorem ConsoleGuar.refl (t : ℕ) (s : ConsoleState D) : ConsoleGuar t s s where
  now := Nat.le_refl _
  pending _ _ _ := Iff.rfl
  executed _ h := .inl h
  stored _ h := .inl h
  sent := List.Subset.refl _

/-- Two requests on their way do not share a key. -/
theorem ConsoleInv.eq_of_pending {s : ConsoleState D} (h : ConsoleInv s) {t t' : ℕ} {key : String}
    (ht : (t, key) ∈ s.pending) (ht' : (t', key) ∈ s.pending) : t = t' :=
  congrArg Prod.fst (List.inj_on_of_nodup_map h.keys ht ht' rfl)

theorem ConsoleGuar.rely {t t' : ℕ} {s s' : ConsoleState D} (h : ConsoleGuar t s s')
    (hinv : ConsoleInv s) (hne : t ≠ t') : ConsoleRely t' s s' where
  now := h.now
  pending key := h.pending t' key (Ne.symm hne)
  executed e he hkey := by
    rcases h.executed e he with hold | hmine
    · exact hold
    · exact absurd (hinv.eq_of_pending hmine hkey) hne
  stored r hr hkey := by
    rcases h.stored r hr with hold | hmine
    · exact hold
    · exact absurd (hinv.eq_of_pending hmine hkey) hne
  sent := h.sent

/-! ### The steps -/

section Steps

variable {s : ConsoleState D} {t : ℕ} {key : String} {fingerprint : List Char} {body : JsonValue}

theorem ConsoleInv.fresh (csrfTokens : List (String × Timestamp)) (now : Timestamp)
    (dependencies : D) : ConsoleInv (freshConsole csrfTokens now dependencies) where
  once := .nil
  same := nofun
  remembered := nofun
  keys := .nil
  kept := nofun
  entries := nofun
  past := ⟨nofun, nofun⟩

/-- The tokens and the dependencies do not matter. -/
theorem ConsoleInv.setOthers (h : ConsoleInv s) (csrfTokens : List (String × Timestamp))
    (dependencies : D) : ConsoleInv { s with csrfTokens, dependencies } where
  once := h.once
  same := h.same
  remembered := h.remembered
  keys := h.keys
  kept := h.kept
  entries := h.entries
  past := h.past

theorem ConsoleInv.tick (h : ConsoleInv s) : ConsoleInv { s with now := s.now + 1 } where
  once := h.once
  same := h.same
  remembered := h.remembered
  keys := h.keys
  kept r hr hnow := h.kept r hr (Nat.lt_of_succ_lt hnow)
  entries := h.entries
  past := ⟨fun r hr ↦ Nat.le_succ_of_le (h.past.1 r hr), fun a ha ↦ Nat.le_succ_of_le (h.past.2 a ha)⟩

/-- The end of a request frees its key. -/
theorem ConsoleInv.fail (h : ConsoleInv s) (t : ℕ) : ConsoleInv (s.fail t) where
  once := h.once
  same := h.same
  remembered := h.remembered
  keys := h.keys.sublist (List.filter_sublist.map _)
  kept := h.kept
  entries := h.entries
  past := h.past

theorem mem_pending_filter {pending : List (ℕ × String)} {t call : ℕ} {key : String}
    (hne : call ≠ t) :
    (call, key) ∈ pending ↔ (call, key) ∈ pending.filter fun p ↦ decide (p.1 ≠ t) := by
  rw [List.mem_filter]
  exact ⟨fun h ↦ ⟨h, by simpa using hne⟩, fun h ↦ h.1⟩

/-- An entry whose window is not over survives the pruning. -/
theorem entry_pruneEntries {entry : IdempotencyEntry} (h : s.entry key = some entry)
    (hnow : s.now < entry.expiresAt) : s.pruneEntries.entry key = some entry := by
  obtain ⟨found, hfound, rfl⟩ := Option.map_eq_some_iff.1 h
  have hsurvives : (s.idempotency.filter fun entry ↦ decide (s.now < entry.2.expiresAt)).find?
      (fun entry ↦ decide (entry.1 = key)) = some found := by
    rw [List.find?_filter]
    rw [List.find?_eq_some_iff_append] at hfound ⊢
    obtain ⟨hkey, before, after, hsplit, hbefore⟩ := hfound
    refine ⟨by simpa [hnow] using hkey, before, after, hsplit, fun a ha ↦ ?_⟩
    have hother := hbefore a ha
    simp only [Bool.not_eq_true', decide_eq_false_iff_not] at hother ⊢
    exact fun hboth ↦ hother (of_decide_eq_true hboth.2)
  exact congrArg (Option.map Prod.snd) hsurvives

theorem ConsoleInv.pruneEntries (h : ConsoleInv s) : ConsoleInv s.pruneEntries where
  once := h.once
  same := h.same
  remembered := h.remembered
  keys := h.keys
  kept r hr hnow := entry_pruneEntries (h.kept r hr hnow) hnow
  entries entry hentry := h.entries entry (List.mem_of_mem_filter hentry)
  past := h.past

/-- What is found is the result of a window that is not over. -/
theorem ConsoleInv.of_entry (h : ConsoleInv s) {entry : IdempotencyEntry}
    (hentry : s.pruneEntries.entry key = some entry) : s.now < entry.expiresAt ∧
      ∃ r ∈ s.stored, r.key = key ∧ entry = ⟨r.time + idempotencyTtl, r.fingerprint, r.body⟩ := by
  obtain ⟨found, hfound, rfl⟩ := Option.map_eq_some_iff.1 hentry
  obtain ⟨hmem, hnow⟩ := List.mem_filter.1 (List.mem_of_find?_eq_some hfound)
  obtain ⟨r, hr, hkey, hvalue⟩ := h.entries found hmem
  have hfoundkey : found.1 = key := by simpa using List.find?_some hfound
  exact ⟨by simpa using hnow, r, hr, hkey.trans hfoundkey, hvalue⟩

/-- The key is taken by call `t`, and the windows of its results are over. -/
structure Taken (t : ℕ) (key : String) (s : ConsoleState D) : Prop where
  pending : (t, key) ∈ s.pending
  stored : ∀ r ∈ s.stored, r.key = key → r.time + idempotencyTtl ≤ s.now

/-- The key is taken, and the windows of the operations called for it are over. -/
structure Reserved (t : ℕ) (key : String) (s : ConsoleState D) : Prop extends Taken t key s where
  executed : ∀ e ∈ s.executed, e.key = key → e.time + idempotencyTtl ≤ s.now

theorem Taken.of_rely {s' : ConsoleState D} (h : Taken t key s) (hr : ConsoleRely t s s') :
    Taken t key s' where
  pending := (hr.pending key).1 h.pending
  stored r hmem hkey :=
    Nat.le_trans (h.stored r (hr.stored r hmem (hkey ▸ h.pending)) hkey) hr.now

theorem Reserved.of_rely {s' : ConsoleState D} (h : Reserved t key s) (hr : ConsoleRely t s s') :
    Reserved t key s' where
  toTaken := h.toTaken.of_rely hr
  executed e hmem hkey :=
    Nat.le_trans (h.executed e (hr.executed e hmem (hkey ▸ h.pending)) hkey) hr.now

/-- A result is sent, within the window of a remembered result. -/
theorem ConsoleInv.send (h : ConsoleInv s) {a : MutationResult} (htime : a.time = s.now)
    {r : MutationResult} (hr : r ∈ s.stored) (hkey : r.key = a.key)
    (hwindow : s.now < r.time + idempotencyTtl) (hfingerprint : a.fingerprint = r.fingerprint)
    (hbody : a.body = r.body) : ConsoleInv { s with sent := a :: s.sent } where
  once := h.once
  same r' hr' b hb hbkey hle hlt := by
    rcases List.mem_cons.1 hb with rfl | hb
    · -- both results are the one the key is remembered with
      have hwindow' : s.now < r'.time + idempotencyTtl := htime ▸ hlt
      have hentry := h.kept r hr hwindow
      rw [hkey, hbkey, h.kept r' hr' hwindow'] at hentry
      obtain ⟨-, hfingerprint', hbody'⟩ := IdempotencyEntry.mk.inj (Option.some.inj hentry)
      exact ⟨hfingerprint.trans hfingerprint'.symm, hbody.trans hbody'.symm⟩
    · exact h.same r' hr' b hb hbkey hle hlt
  remembered b hb := by
    rcases List.mem_cons.1 hb with rfl | hb
    · exact ⟨r, hr, hkey, htime ▸ h.past.1 r hr, htime ▸ hwindow⟩
    · exact h.remembered b hb
  keys := h.keys
  kept := h.kept
  entries := h.entries
  past := by
    refine ⟨h.past.1, fun b hb ↦ ?_⟩
    rcases List.mem_cons.1 hb with rfl | hb
    · exact Nat.le_of_eq htime
    · exact h.past.2 b hb

/-- A look-up that meets the condition. -/
theorem lookup_spec (h : ConsoleInv s) (t : ℕ) (key : String) (fingerprint : List Char)
    (hok : looksUpSettled () t (.lookup key) s = true) :
    ConsoleInv (s.lookup t key fingerprint).2 ∧ ConsoleGuar t s (s.lookup t key fingerprint).2 ∧
      (∀ result, (s.lookup t key fingerprint).1 = .ok (some result) →
        ∃ a ∈ (s.lookup t key fingerprint).2.sent, a.call = t ∧ a.body = result) ∧
      ((s.lookup t key fingerprint).1 = .ok none →
        Reserved t key (s.lookup t key fingerprint).2) := by
  have hpruned := h.pruneEntries
  have hguar : ConsoleGuar t s s.pruneEntries :=
    ⟨Nat.le_refl _, fun _ _ _ ↦ Iff.rfl, fun _ h ↦ .inl h, fun _ h ↦ .inl h, List.Subset.refl _⟩
  rw [looksUpSettled, Bool.and_eq_true, List.all_eq_true, List.all_eq_true] at hok
  obtain ⟨hfree, hover⟩ := hok
  rcases hentry : s.pruneEntries.entry key with - | replay
  · -- nothing is remembered: the windows of the results are over
    have hstored : ∀ r ∈ s.stored, r.key = key → r.time + idempotencyTtl ≤ s.now := by
      intro r hr hkey
      by_contra hlt
      have hkept := hpruned.kept r hr (Nat.lt_of_not_le hlt)
      rw [hkey, hentry] at hkept
      exact nomatch hkept
    have hexecuted : ∀ e ∈ s.executed, e.key = key → e.time + idempotencyTtl ≤ s.now := by
      intro e he hkey
      have hisover : s.isOver e = true := by simpa [hkey] using hover e he
      rw [ConsoleState.isOver, Bool.or_eq_true, List.any_eq_true] at hisover
      rcases hisover with ⟨r, hr, hsettled⟩ | hpassed
      · obtain ⟨-, hrkey, hle⟩ := of_decide_eq_true hsettled
        exact Nat.le_trans (Nat.add_le_add_right hle _) (hstored r hr (hrkey.trans hkey))
      · exact of_decide_eq_true hpassed
    have hlookup : s.lookup t key fingerprint =
        (.ok none, { s.pruneEntries with pending := (t, key) :: s.pending }) := by
      rw [ConsoleState.lookup]
      simp only [hentry]
    rw [hlookup]
    refine ⟨⟨⟨h.once, h.same, h.remembered⟩, ?_, hpruned.kept, hpruned.entries, hpruned.past⟩,
      ⟨Nat.le_refl _, fun call k hne ↦ ?_, fun _ h ↦ .inl h, fun _ h ↦ .inl h,
        List.Subset.refl _⟩, fun _ hres ↦ (nomatch Except.ok.inj hres), fun _ ↦
      ⟨⟨List.mem_cons_self .., hstored⟩, hexecuted⟩⟩
    · refine List.nodup_cons.2 ⟨fun hmem ↦ ?_, h.keys⟩
      obtain ⟨p, hp, hpkey⟩ := List.mem_map.1 hmem
      exact of_decide_eq_true (hfree p hp) hpkey
    · refine ⟨List.mem_cons_of_mem _, fun hmem ↦ ?_⟩
      rcases List.mem_cons.1 hmem with heq | hmem
      · exact absurd (congrArg Prod.fst heq) hne
      · exact hmem
  · obtain ⟨hnow, r, hr, hkey, rfl⟩ := h.of_entry hentry
    by_cases hfingerprint : r.fingerprint = fingerprint
    · have hlookup : s.lookup t key fingerprint = (.ok (some r.body),
          { s.pruneEntries with sent := ⟨⟨t, key, fingerprint, s.now⟩, r.body⟩ :: s.sent }) := by
        rw [ConsoleState.lookup]
        simp only [hentry, ne_eq, hfingerprint, not_true_eq_false, if_false]
      rw [hlookup]
      refine ⟨hpruned.send rfl hr hkey hnow hfingerprint.symm rfl,
        ⟨Nat.le_refl _, fun _ _ _ ↦ Iff.rfl, fun _ h ↦ .inl h, fun _ h ↦ .inl h, fun _ h ↦
          List.mem_cons_of_mem _ h⟩, fun result hres ↦ ?_, fun hres ↦ (nomatch Except.ok.inj hres)⟩
      obtain rfl := Option.some.inj (Except.ok.inj hres)
      exact ⟨_, List.mem_cons_self .., rfl, rfl⟩
    · have hlookup : s.lookup t key fingerprint =
          (.error (.http 409 "Idempotency key was already bound to a different mutation"),
            s.pruneEntries) := by
        rw [ConsoleState.lookup]
        simp only [hentry, ne_eq, hfingerprint, not_false_eq_true, if_true]
      rw [hlookup]
      exact ⟨hpruned, hguar, nofun, nofun⟩

/-- Calling the operation for a key that is reserved. -/
theorem execute_spec (h : ConsoleInv s) (hreserved : Reserved t key s) (fingerprint : List Char) :
    ConsoleInv (s.execute t key fingerprint) ∧ ConsoleGuar t s (s.execute t key fingerprint) ∧
      Taken t key (s.execute t key fingerprint) := by
  refine ⟨⟨⟨?_, h.same, h.remembered⟩, h.keys, h.kept, h.entries, h.past⟩,
    ⟨Nat.le_refl _, fun _ _ _ ↦ Iff.rfl, fun e he ↦ ?_, fun _ h ↦ .inl h, List.Subset.refl _⟩,
    ⟨hreserved.pending, hreserved.stored⟩⟩
  · exact List.pairwise_cons.2 ⟨fun e he hkey ↦ hreserved.executed e he hkey.symm, h.once⟩
  · rcases List.mem_cons.1 he with rfl | he
    · exact .inr hreserved.pending
    · exact .inl he

theorem entry_settle_self : (s.settle t key fingerprint body).entry key =
    some ⟨s.now + idempotencyTtl, fingerprint, body⟩ := by
  have hothers : (s.idempotency.filter fun entry ↦ decide (entry.1 ≠ key)).find?
      (fun entry ↦ decide (entry.1 = key)) = none := by
    refine List.find?_eq_none.2 fun entry hentry ↦ ?_
    have hne : entry.1 ≠ key := by simpa using (List.mem_filter.1 hentry).2
    simpa using hne
  rw [ConsoleState.entry, ConsoleState.settle]
  dsimp only
  rw [List.find?_append, hothers]
  simp

theorem entry_settle_of_ne {other : String} (hne : other ≠ key) :
    (s.settle t key fingerprint body).entry other = s.entry other := by
  have hothers : (s.idempotency.filter fun entry ↦ decide (entry.1 ≠ key)).find?
      (fun entry ↦ decide (entry.1 = other)) =
        s.idempotency.find? fun entry ↦ decide (entry.1 = other) := by
    rw [List.find?_filter]
    congr 1
    funext entry
    rcases eq_or_ne entry.1 other with rfl | hother
    · simp [hne]
    · simp [hother]
  rw [ConsoleState.entry, ConsoleState.entry, ConsoleState.settle]
  dsimp only
  rw [List.find?_append, hothers]
  simp [Ne.symm hne]

/-- Remembering and sending the result of a request. -/
theorem settle_spec (h : ConsoleInv s) (htaken : Taken t key s) (fingerprint : List Char)
    (body : JsonValue) : ConsoleInv (s.settle t key fingerprint body) ∧
      ConsoleGuar t s (s.settle t key fingerprint body) := by
  have hsent : ∀ a ∈ s.sent, a.key = key → a.time < s.now := by
    intro a ha hkey
    obtain ⟨r, hr, hrkey, -, hlt⟩ := h.remembered a ha
    exact Nat.lt_of_lt_of_le hlt (htaken.stored r hr (hrkey.trans hkey))
  refine ⟨⟨⟨h.once, fun r hr a ha hkey hle hlt ↦ ?_, fun a ha ↦ ?_⟩,
    h.keys.sublist (List.filter_sublist.map _), fun r hr hnow ↦ ?_, fun entry hentry ↦ ?_, ?_⟩, ?_⟩
  · rcases List.mem_cons.1 hr with rfl | hr
    · rcases List.mem_cons.1 ha with rfl | ha
      · exact ⟨rfl, rfl⟩
      · exact absurd hle (Nat.not_le.2 (hsent a ha hkey))
    · rcases List.mem_cons.1 ha with rfl | ha
      · exact absurd hlt (Nat.not_lt.2 (htaken.stored r hr hkey.symm))
      · exact h.same r hr a ha hkey hle hlt
  · rcases List.mem_cons.1 ha with rfl | ha
    · exact ⟨_, List.mem_cons_self .., rfl, Nat.le_refl _, Nat.lt_add_of_pos_right (by decide)⟩
    · obtain ⟨r, hr, hrest⟩ := h.remembered a ha
      exact ⟨r, List.mem_cons_of_mem _ hr, hrest⟩
  · rcases List.mem_cons.1 hr with rfl | hr
    · exact entry_settle_self
    · have hne : r.key ≠ key := fun hkey ↦
        absurd hnow (Nat.not_lt.2 (htaken.stored r hr hkey))
      rw [entry_settle_of_ne hne]
      exact h.kept r hr hnow
  · rcases List.mem_append.1 hentry with hold | hnew
    · obtain ⟨r, hr, hrest⟩ := h.entries entry (List.mem_of_mem_filter hold)
      exact ⟨r, List.mem_cons_of_mem _ hr, hrest⟩
    · obtain rfl := List.mem_singleton.1 hnew
      exact ⟨_, List.mem_cons_self .., rfl, rfl⟩
  · refine ⟨fun r hr ↦ ?_, fun a ha ↦ ?_⟩
    · rcases List.mem_cons.1 hr with rfl | hr
      · exact Nat.le_refl _
      · exact h.past.1 r hr
    · rcases List.mem_cons.1 ha with rfl | ha
      · exact Nat.le_refl _
      · exact h.past.2 a ha
  · refine ⟨Nat.le_refl _, fun call k hne ↦ mem_pending_filter hne, fun _ h ↦ .inl h,
      fun r hr ↦ ?_, fun _ h ↦ List.mem_cons_of_mem _ h⟩
    rcases List.mem_cons.1 hr with rfl | hr
    · exact .inr htaken.pending
    · exact .inl hr

end Steps

/-! ### The programs -/

section Programs

variable {deps : ConsoleDependencies D} {s : ConsoleState D} {t : ℕ} {key : String}

/-- A step that only looks, and keeps a fact the others keep. -/
theorem safe_lookAt {A : Type} {J : ConsoleState D → Prop} {l : ConsoleStep}
    {f : ConsoleState D → Except ConsoleError A}
    (hrely : ∀ {s s'}, ConsoleRely t s s' → J s → J s') (h : J s) :
    (consoleProtocol D).Safe () t (Returns fun _ s ↦ J s) (Prog.read l f) s := by
  intro s' n _ hinv hr _ _
  exact ⟨hinv, ConsoleGuar.refl t s', nofun, fun _ _ ↦ hrely hr h⟩

theorem safe_pure {A : Type} {J : ConsoleState D → Prop} {r : Except ConsoleError A} (h : J s) :
    (consoleProtocol D).Safe () t (Returns fun _ s ↦ J s) (ofResult r) s :=
  fun _ _ ↦ h

/-- A computation of a dependency keeps a fact the others keep. -/
theorem safe_callDependency {A : Type} {J : ConsoleState D → Prop} (prog : DependencyProg D A)
    (hrely : ∀ {s s'}, ConsoleRely t s s' → J s → J s')
    (hset : ∀ {s : ConsoleState D} d, J s → J { s with dependencies := d }) (h : J s) :
    (consoleProtocol D).Safe () t (Returns fun _ s ↦ J s) (callDependency prog) s := by
  have hinv {n : ℕ} {s : ConsoleState D} (d : D) (h : (consoleProtocol D).inv n s) :
      (consoleProtocol D).inv n { s with dependencies := d } := h.setOthers _ d
  refine (safe_onPart hinv (fun _ s d ↦ ?_) hrely hset _ h).mono fun _ _ hJ _ _ ↦ hJ
  exact ⟨Nat.le_refl _, fun _ _ _ ↦ Iff.rfl, fun _ h ↦ .inl h, fun _ h ↦ .inl h,
    List.Subset.refl _⟩

theorem Reserved.setDependencies (h : Reserved t key s) (d : D) :
    Reserved t key { s with dependencies := d } :=
  ⟨⟨h.pending, h.stored⟩, h.executed⟩

theorem Taken.setDependencies (h : Taken t key s) (d : D) :
    Taken t key { s with dependencies := d } :=
  ⟨h.pending, h.stored⟩

/-- Calling the operation of a request whose key is reserved. -/
theorem safe_executeOperation {A : Type} (fingerprint : List Char) (prog : DependencyProg D A)
    (h : Reserved t key s) :
    (consoleProtocol D).Safe () t (Returns fun _ s ↦ Taken t key s)
      (executeOperation t key fingerprint prog) s := by
  refine safe_modify_bind fun s' n _ hinv hr _ ↦ ?_
  obtain ⟨hinv', hguar, htaken⟩ := execute_spec hinv (h.of_rely hr) fingerprint
  exact ⟨hinv', hguar, safe_callDependency prog (fun hr h ↦ h.of_rely hr)
    (fun d h ↦ h.setDependencies d) htaken⟩

theorem safe_expectedQueueItem (body : JsonObject) (h : Reserved t key s) :
    (consoleProtocol D).Safe () t (Returns fun _ s ↦ Reserved t key s)
      (expectedQueueItem deps body) s := by
  unfold expectedQueueItem
  simp only [bind_eq]
  refine (safe_pure h).seq fun jobId s h ↦ (safe_pure h).seq fun expected s h ↦ ?_
  refine (safe_callDependency _ (fun hr h ↦ h.of_rely hr) (fun d h ↦ h.setDependencies d) h).seq
    fun item s h ↦ ?_
  exact .ite (fun _ ↦ returns_error) fun _ ↦ returns_ok.2 h

theorem safe_assertModelRevision {manager : ModelService D} (body : JsonObject)
    (h : Reserved t key s) :
    (consoleProtocol D).Safe () t (Returns fun _ s ↦ Reserved t key s)
      (assertModelRevision deps manager body) s := by
  unfold assertModelRevision
  simp only [bind_eq]
  exact (safe_pure h).seq fun expected s h ↦ safe_lookAt (fun hr h ↦ h.of_rely hr) h

/-- Whatever the mutation, it calls one operation, for a key that is reserved. -/
theorem safe_mutate (fingerprint : List Char) (pathname : String) (body : JsonObject)
    (h : Reserved t key s) :
    (consoleProtocol D).Safe () t (Returns fun _ s ↦ Taken t key s)
      (mutate deps t key fingerprint pathname body) s := by
  unfold mutate
  simp only [bind_eq]
  refine .ite (fun _ ↦ ?_) fun _ ↦ .ite (fun _ ↦ ?_) fun _ ↦ .ite (fun _ ↦ ?_) fun _ ↦
    .ite (fun _ ↦ ?_) fun _ ↦ .ite (fun _ ↦ ?_) fun _ ↦ returns_error
  · refine (safe_pure h).seq fun _ s h ↦ (safe_expectedQueueItem body h).seq fun jobId s h ↦ ?_
    exact (safe_executeOperation _ _ h).seq fun item s h ↦ returns_ok.2 h
  · refine (safe_pure h).seq fun _ s h ↦ (safe_expectedQueueItem body h).seq fun jobId s h ↦ ?_
    exact (safe_executeOperation _ _ h).seq fun item s h ↦ returns_ok.2 h
  · refine (safe_pure h).seq fun expected s h ↦ (safe_pure h).seq fun settings s h ↦ ?_
    exact (safe_executeOperation _ _ h).seq fun document s h ↦ returns_ok.2 h
  · refine (safe_pure h).seq fun manager s h ↦ (safe_assertModelRevision body h).seq fun _ s h ↦ ?_
    refine (safe_executeOperation _ _ h).seq fun record s h ↦ ?_
    exact .ite (fun _ ↦ returns_error) fun _ ↦ safe_lookAt (fun hr h ↦ h.of_rely hr) h
  · refine (safe_pure h).seq fun manager s h ↦ (safe_assertModelRevision body h).seq fun _ s h ↦ ?_
    refine (safe_executeOperation _ _ h).seq fun record s h ↦ ?_
    exact .ite (fun _ ↦ returns_error) fun _ ↦ returns_ok.2 h

/-- The request was sent this answer, if it is a result. -/
def Sent (t : ℕ) (response : ConsoleResponse) (s : ConsoleState D) : Prop :=
  ∀ body, response = .result body → ∃ a ∈ s.sent, a.call = t ∧ a.body = body

theorem safe_settleMutation (fingerprint : List Char) (pathname : String) (body : JsonObject)
    (h : Reserved t key s) :
    (consoleProtocol D).Safe () t (Returns (Sent t))
      (settleMutation deps t key fingerprint pathname body) s := by
  refine (safe_mutate fingerprint pathname body h).seq fun result s h ↦ ?_
  refine safe_modify_bind fun s' n _ hinv hr _ ↦ ?_
  obtain ⟨hinv', hguar⟩ := settle_spec hinv (h.of_rely hr) fingerprint result
  refine ⟨hinv', hguar, returns_ok.2 fun body' hbody ↦ ?_⟩
  obtain rfl := ConsoleResponse.result.inj hbody
  exact ⟨_, List.mem_cons_self .., rfl, rfl⟩

theorem safe_route (request : ConsoleRequest) (s : ConsoleState D) :
    (consoleProtocol D).Safe () t (Returns (Sent t)) (route deps t request) s := by
  unfold route authorizeMutation
  simp only [bind_eq]
  refine Safe.seq (R := fun _ _ ↦ True) ?_ fun body s _ ↦ ?_
  · refine (safe_pure (J := fun _ ↦ True) trivial).seq fun _ s _ ↦
      (safe_pure (J := fun _ ↦ True) trivial).seq fun _ s _ ↦ ?_
    refine Safe.seq (safe_lookAt (J := fun _ ↦ True) (fun _ _ ↦ trivial) trivial) fun body s _ ↦ ?_
    refine safe_atomic_bind fun s' n _ hinv _ _ ↦ ⟨hinv.setOthers _ _, ?_, fun _ _ ↦ ?_, nofun⟩
    · exact ⟨Nat.le_refl _, fun _ _ _ ↦ Iff.rfl, fun _ h ↦ .inl h, fun _ h ↦ .inl h,
        List.Subset.refl _⟩
    · exact returns_ok.2 trivial
  · refine (safe_pure (J := fun _ ↦ True) trivial).seq fun key s _ ↦ ?_
    refine safe_atomic_bind fun s' n _ hinv _ hok ↦ ?_
    obtain ⟨hinv', hguar, hreplay, hreserved⟩ :=
      lookup_spec hinv t key (mutationFingerprint request.pathname body) hok
    refine ⟨hinv', hguar, fun replay hlookup ↦ ?_, fun e _ ↦ returns_error⟩
    cases replay with
    | some result =>
      refine returns_ok.2 fun body' hbody ↦ ?_
      obtain rfl := ConsoleResponse.result.inj hbody
      exact hreplay result hlookup
    | none => exact safe_settleMutation _ _ _ (hreserved hlookup)

theorem safe_handle (request : ConsoleRequest) (s : ConsoleState D) :
    (consoleProtocol D).Safe () t (Returns (Sent t)) (handle deps t request) s := by
  refine (safe_route request s).catching_returns fun e s ↦ ?_
  refine safe_modify_bind fun s' n _ hinv _ _ ↦ ⟨hinv.fail t, ?_, ?_⟩
  · exact ⟨Nat.le_refl _, fun _ _ hne ↦ mem_pending_filter hne, fun _ h ↦ .inl h, fun _ h ↦ .inl h,
      List.Subset.refl _⟩
  · exact returns_ok.2 fun _ hbody ↦ nomatch hbody

end Programs

/-! ### Every run -/

/-- The end of a call: what it returns as a result was sent. -/
def Answered (t : ℕ) (r : Except ConsoleError (Option ConsoleResponse)) (s : ConsoleState D) :
    Prop :=
  ∀ response, r = .ok (some response) → Sent t response s

theorem consoleProtocol_sound (deps : ConsoleDependencies D) :
    (consoleProtocol D).Sound (consoleSystem deps) Answered where
  inv_mono _ h := h
  rely_refl := ConsoleRely.refl _ _
  rely_trans := ConsoleRely.trans
  guar_rely hne _ hinv _ h := h.rely hinv hne
  post_stable _ _ _ _ _ hr h response hresponse body hbody := by
    obtain ⟨a, ha, hcall⟩ := h response hresponse body hbody
    exact ⟨a, hr.sent ha, hcall⟩
  call {p t k s} _ _ := by
    match k with
    | .post request =>
      refine (safe_handle request s).bind (fun response s h ↦ ?_) fun _ _ _ ↦ nofun
      intro response' hresponse
      obtain rfl := Option.some.inj (Except.ok.inj hresponse)
      exact h response rfl
    | .wait =>
      intro s' n _ hinv _ _ _
      refine ⟨hinv.tick, ?_, nofun, fun _ hresponse ↦ (nomatch Except.ok.inj hresponse)⟩
      exact ⟨Nat.le_succ _, fun _ _ _ ↦ Iff.rfl, fun _ h ↦ .inl h, fun _ h ↦ .inl h,
        List.Subset.refl _⟩
  fork _ _ h := h.elim
  crash_inv _ := ConsoleInv.fresh [] _ _
  crash_rely hne _ := absurd rfl hne

/-- The number 0. -/
def zeroNumber : JsonNumber where
  text := ['0']
  ne_nil := List.cons_ne_nil _ _
  isAtomChar_of_mem c hc := by
    obtain rfl := List.mem_singleton.1 hc
    rfl

/-- A dispatcher whose job `j` has revision 0 and can be retried. -/
def retryingDependencies : ConsoleDependencies Unit where
  origin := "http://127.0.0.1:8787"
  queueControlAuthority := true
  getItem jobId := .ret (.ok (jobId, 0))
  cancel _ := .ret (.ok .null)
  retry _ := .ret (.ok .null)
  validateSettings _ := .error (.other "Invalid settings")
  updateSettings _ _ := .ret (.ok .null)
  modelService := none
  safeInteger number := if number = zeroNumber then some 0 else none

/-- A request to retry job `j` under the key `k`. -/
def retryRequest : ConsoleRequest where
  pathname := "/api/v1/queue/retry"
  origin := none
  contentType := some "application/json"
  body := .ok
    ⟨[("csrfToken", .string "t"), ("idempotencyKey", .string "k"), ("jobId", .string "j"),
      ("expectedRevision", .number zeroNumber)], by decide +kernel⟩

/-- The second request looks its key up while the first one is on its way. -/
def overlappingRetries : List (Event ConsoleCall Unit) :=
  [ [.call () (.post retryRequest), .call () (.post retryRequest)], List.replicate 3 (.run 0),
    List.replicate 3 (.run 1), [.run 0, .run 1] ].flatten

end CodeConductor
