import CodeConductor.Reservation.Store

/-!
# Reservations are gapless, unique and complete

An attempt's directory appears by one rename, which finds the staging directory of its own call
complete and nothing under the name. A call only tries an ordinal when it has seen all lower ones
published, so the published ordinals are the first ones, whatever is left behind by processes that
died.
-/

namespace CodeConductor

open Async Async.Prog Async.Protocol

namespace Reservation

/-- A configuration of the reserving processes. -/
abbrev ReservationConfig := Config ReservationStep ReservationFs ReservationCall RuntimeError
  ReservationReply ℕ

/-! ### What is promised -/

/-- What readers tell staging directories by. -/
def isReserveName (text : String) : Prop := ".reserve-".toList <:+: text.toList

/-- The directory of a job. -/
structure ReservationFsSafe (jobId : JobId) (maxAttempts : ℕ) (fs : ReservationFs) : Prop where
  /-- The ordinals of the attempts ever created are `1, …, k`, -/
  ordinals : fs.created.map Prod.fst = List.range' 1 fs.created.length
  /-- at most `maxAttemptsPerJob` of them. -/
  bound : fs.created.length ≤ maxAttempts
  /-- They are the directories there are, each created by one call, -/
  creator : ∀ ordinal, fs.files? (.attempt ordinal) ≠ none ↔ ∃! call, (ordinal, call) ∈ fs.created
  /-- and a call creates one. -/
  once : (fs.created.map Prod.snd).Nodup
  /-- A directory readers take for an attempt's has both files. -/
  visible : ∀ entry files, fs.files? entry = some files → ¬isReserveName (entry.text jobId) →
    files.manifest ≠ none ∧ files.cleanup ≠ none

/-- How a `reserveAttempt` by `call` may end. -/
inductive AttemptAnswer (fs : ReservationFs) (call : ℕ) (contract : JobContract) :
    Except RuntimeError ReservationReply → Prop
  | created {manifest : AttemptManifest} : manifest.jobId = contract.jobId →
      (manifest.attemptId.ordinal, call) ∈ fs.created →
      AttemptAnswer fs call contract (.ok (.attempt manifest true))
  | failed {error : RuntimeError} : (∀ c ∈ fs.created, c.2 ≠ call) →
      (error = budgetExhausted contract →
        ∀ ordinal, 1 ≤ ordinal → ordinal ≤ contract.resources.maxAttemptsPerJob →
          ∃ creator, (ordinal, creator) ∈ fs.created) →
      AttemptAnswer fs call contract (.error error)

/-- How a `reserveJob` may end: with the stored contract, for the request it was stored for. -/
inductive JobAnswer (fs : ReservationFs) (contract : JobContract) :
    Except RuntimeError ReservationReply → Prop
  | reserved {stored : JobContract} {created : Bool} : fs.job? = some stored →
      contract.requestFingerprint = stored.requestFingerprint →
      JobAnswer fs contract (.ok (.job stored created))
  | failed {error : RuntimeError} : JobAnswer fs contract (.error error)

/-- **Reservations**, in every run of the calls on a job: every state reached is safe, and every call
made in it ends as it may. -/
structure ReservationSafe (jobId : JobId) (maxAttempts : ℕ) : Prop where
  state : ∀ cfg : ReservationConfig,
    (reservationSystem jobId maxAttempts).Reaches System.unrestricted (.start {}) cfg →
      ReservationFsSafe jobId maxAttempts cfg.shared
  attempt : ∀ (a b c : ReservationConfig) (p : ℕ) (contract : JobContract)
    (lineage : Option ProposalLineage) (dispatchOperationId : Option Uuid) (now : Timestamp)
    (result : Except RuntimeError ReservationReply),
    (reservationSystem jobId maxAttempts).Reaches System.unrestricted (.start {}) a →
    (reservationSystem jobId maxAttempts).advance a
      (.call p (.reserveAttempt contract lineage dispatchOperationId now)) = some b →
    (reservationSystem jobId maxAttempts).Reaches System.unrestricted b c →
    c.result a.next = some result → AttemptAnswer c.shared a.next contract result
  job : ∀ (a b c : ReservationConfig) (p : ℕ) (contract : JobContract)
    (result : Except RuntimeError ReservationReply),
    (reservationSystem jobId maxAttempts).Reaches System.unrestricted (.start {}) a →
    (reservationSystem jobId maxAttempts).advance a (.call p (.reserveJob contract)) = some b →
    (reservationSystem jobId maxAttempts).Reaches System.unrestricted b c →
    c.result a.next = some result → JobAnswer c.shared contract result

/-! ### The directory of a job -/

namespace ReservationFs

variable {fs : ReservationFs} {entry entry' : AttemptEntry} {files : Option AttemptFiles}

theorem attempts?_of_files? {found : AttemptFiles} (h : fs.files? entry = some found) :
    fs.attempts? ≠ none := by
  intro hnone
  rw [files?, hnone] at h
  exact nomatch h

theorem setEntry_attempts? (h : fs.attempts? ≠ none) : (fs.setEntry entry files).attempts? ≠ none := by
  obtain ⟨entries, hentries⟩ := Option.ne_none_iff_exists'.1 h
  obtain ⟨directory, hdirectory, -⟩ := Option.bind_eq_some_iff.1 hentries
  rw [setEntry, hentries]
  simp [attempts?, hdirectory]

@[simp] theorem setEntry_job? : (fs.setEntry entry files).job? = fs.job? := by
  rw [setEntry]
  split
  · cases hdirectory : fs.directory <;> simp [job?, hdirectory]
  · rfl

@[simp] theorem setEntry_staging : (fs.setEntry entry files).staging = fs.staging := by
  rw [setEntry]
  split <;> rfl

@[simp] theorem setEntry_created : (fs.setEntry entry files).created = fs.created := by
  rw [setEntry]
  split <;> rfl

theorem setEntry_files?_self (h : fs.attempts? ≠ none) :
    (fs.setEntry entry files).files? entry = files := by
  obtain ⟨entries, hentries⟩ := Option.ne_none_iff_exists'.1 h
  obtain ⟨directory, hdirectory, -⟩ := Option.bind_eq_some_iff.1 hentries
  rw [setEntry, hentries]
  simp [files?, attempts?, hdirectory]

theorem setEntry_files?_of_ne (h : entry' ≠ entry) :
    (fs.setEntry entry files).files? entry' = fs.files? entry' := by
  rw [setEntry]
  split
  · rename_i entries hentries
    obtain ⟨directory, hdirectory, hattempts⟩ := Option.bind_eq_some_iff.1 hentries
    simp [files?, attempts?, hdirectory, hattempts, h]
  · rfl

/-- What the entry holds afterwards, if it is there. -/
theorem setEntry_files?_cases {found : AttemptFiles}
    (h : (fs.setEntry entry files).files? entry = some found) : files = some found := by
  by_cases hattempts : fs.attempts? = none
  · rw [setEntry, hattempts] at h
    exact absurd hattempts (attempts?_of_files? h)
  · rw [← h, setEntry_files?_self hattempts]

end ReservationFs

/-! ### The agreement -/

/-- The invariant: calls below `n` have created attempts. -/
structure ReservationInv (maxAttempts n : ℕ) (fs : ReservationFs) : Prop where
  ordinals : fs.created.map Prod.fst = List.range' 1 fs.created.length
  bound : fs.created.length ≤ maxAttempts
  once : (fs.created.map Prod.snd).Nodup
  below : ∀ c ∈ fs.created, c.2 < n
  published : ∀ ordinal, fs.files? (.attempt ordinal) ≠ none ↔
    ∃ call, (ordinal, call) ∈ fs.created
  complete : ∀ ordinal files, fs.files? (.attempt ordinal) = some files →
    files.manifest ≠ none ∧ files.cleanup ≠ none

/-- What call `t` may assume of the others. -/
structure ReservationRely (t : ℕ) (fs fs' : ReservationFs) : Prop where
  own : ∀ ordinal p, fs'.files? (.reserve ordinal p t) = fs.files? (.reserve ordinal p t)
  staging : fs'.staging t = fs.staging t
  kept : fs.created ⊆ fs'.created
  created : ∀ c ∈ fs'.created, c.2 = t → c ∈ fs.created
  job : ∀ contract, fs.job? = some contract → fs'.job? = some contract

/-- What call `t` guarantees. -/
structure ReservationGuar (t : ℕ) (fs fs' : ReservationFs) : Prop where
  others : ∀ ordinal p u, u ≠ t →
    fs'.files? (.reserve ordinal p u) = fs.files? (.reserve ordinal p u)
  staging : ∀ u, u ≠ t → fs'.staging u = fs.staging u
  kept : fs.created ⊆ fs'.created
  created : ∀ c ∈ fs'.created, c.2 ≠ t → c ∈ fs.created
  job : ∀ contract, fs.job? = some contract → fs'.job? = some contract

/-- The agreement of the calls. -/
def reservationProtocol (maxAttempts : ℕ) :
    Protocol ReservationStep ReservationFs ReservationCall ℕ where
  inv := ReservationInv maxAttempts
  rely _ := ReservationRely
  guar _ t _ := ReservationGuar t
  ok _ _ _ _ := True
  pre _ _ _ _ := False

theorem ReservationRely.refl (t : ℕ) (fs : ReservationFs) : ReservationRely t fs fs :=
  ⟨fun _ _ ↦ rfl, rfl, List.Subset.refl _, fun _ hc _ ↦ hc, fun _ h ↦ h⟩

theorem ReservationRely.trans {t : ℕ} {a b c : ReservationFs} (hab : ReservationRely t a b)
    (hbc : ReservationRely t b c) : ReservationRely t a c where
  own ordinal p := (hbc.own ordinal p).trans (hab.own ordinal p)
  staging := hbc.staging.trans hab.staging
  kept := List.Subset.trans hab.kept hbc.kept
  created r hr ht := hab.created r (hbc.created r hr ht) ht
  job contract h := hbc.job contract (hab.job contract h)

theorem ReservationGuar.refl (t : ℕ) (fs : ReservationFs) : ReservationGuar t fs fs :=
  ⟨fun _ _ _ _ ↦ rfl, fun _ _ ↦ rfl, List.Subset.refl _, fun _ hc _ ↦ hc, fun _ h ↦ h⟩

theorem ReservationGuar.rely {t t' : ℕ} {fs fs' : ReservationFs} (h : ReservationGuar t fs fs')
    (hne : t ≠ t') : ReservationRely t' fs fs' where
  own ordinal p := h.others ordinal p t' hne.symm
  staging := h.staging t' hne.symm
  kept := h.kept
  created c hc ht := h.created c hc fun heq ↦ hne (heq.symm.trans ht)
  job := h.job

/-! ### What the operations do -/

section Operations

variable {maxAttempts n t : ℕ} {fs : ReservationFs}

theorem ReservationInv.exists_created (h : ReservationInv maxAttempts n fs) (ordinal : ℕ) :
    (∃ call, (ordinal, call) ∈ fs.created) ↔ 1 ≤ ordinal ∧ ordinal ≤ fs.created.length := by
  have hmem : ordinal ∈ fs.created.map Prod.fst ↔ 1 ≤ ordinal ∧ ordinal ≤ fs.created.length := by
    rw [h.ordinals, List.mem_range'_1]
    omega
  rw [← hmem, List.mem_map]
  exact ⟨fun ⟨call, hc⟩ ↦ ⟨_, hc, rfl⟩, fun ⟨⟨_, call⟩, hc, heq⟩ ↦ ⟨call, heq ▸ hc⟩⟩

/-- A step of call `t` that leaves the attempts as they are. -/
structure Quiet (t : ℕ) (fs fs' : ReservationFs) : Prop where
  attempts : ∀ ordinal, fs'.files? (.attempt ordinal) = fs.files? (.attempt ordinal)
  others : ∀ ordinal p u, u ≠ t →
    fs'.files? (.reserve ordinal p u) = fs.files? (.reserve ordinal p u)
  staging : ∀ u, u ≠ t → fs'.staging u = fs.staging u
  created : fs'.created = fs.created
  job : ∀ contract, fs.job? = some contract → fs'.job? = some contract

namespace Quiet

variable {fs' : ReservationFs}

theorem inv (h : Quiet t fs fs') (hinv : ReservationInv maxAttempts n fs) :
    ReservationInv maxAttempts n fs' where
  ordinals := h.created ▸ hinv.ordinals
  bound := h.created ▸ hinv.bound
  once := h.created ▸ hinv.once
  below := h.created ▸ hinv.below
  published ordinal := by
    rw [h.attempts, h.created]
    exact hinv.published ordinal
  complete ordinal files hfiles := hinv.complete ordinal files (h.attempts ordinal ▸ hfiles)

theorem guar (h : Quiet t fs fs') : ReservationGuar t fs fs' where
  others := h.others
  staging := h.staging
  kept := h.created ▸ List.Subset.refl _
  created _ hc _ := h.created ▸ hc
  job := h.job

theorem refl (t : ℕ) (fs : ReservationFs) : Quiet t fs fs :=
  ⟨fun _ ↦ rfl, fun _ _ _ _ ↦ rfl, fun _ _ ↦ rfl, rfl, fun _ h ↦ h⟩

/-- A step that leaves all entries as they are. -/
theorem of_entries {fs' : ReservationFs} (hentries : ∀ entry, fs'.files? entry = fs.files? entry)
    (hstaging : ∀ u, u ≠ t → fs'.staging u = fs.staging u) (hcreated : fs'.created = fs.created)
    (hjob : ∀ contract, fs.job? = some contract → fs'.job? = some contract) : Quiet t fs fs' :=
  ⟨fun _ ↦ hentries _, fun _ _ _ _ ↦ hentries _, hstaging, hcreated, hjob⟩

/-- The own staging directory changes. -/
theorem setEntry (ordinal p : ℕ) (files : Option AttemptFiles) :
    Quiet t fs (fs.setEntry (.reserve ordinal p t) files) where
  attempts _ := ReservationFs.setEntry_files?_of_ne nofun
  others _ _ u hu := ReservationFs.setEntry_files?_of_ne fun heq ↦
    hu (AttemptEntry.reserve.inj heq).2.2
  staging _ _ := by rw [ReservationFs.setEntry_staging]
  created := ReservationFs.setEntry_created
  job _ h := ReservationFs.setEntry_job?.trans h

theorem makeJobDirectory (t : ℕ) (fs : ReservationFs) : Quiet t fs fs.makeJobDirectory := by
  refine of_entries (fun entry ↦ ?_) (fun _ _ ↦ rfl) rfl fun contract h ↦ ?_
  · cases hdirectory : fs.directory <;>
      simp [ReservationFs.makeJobDirectory, ReservationFs.files?, ReservationFs.attempts?,
        hdirectory]
  · obtain ⟨directory, hdirectory, hjob⟩ := Option.bind_eq_some_iff.1 h
    simp [ReservationFs.makeJobDirectory, ReservationFs.job?, hdirectory, hjob]

theorem makeAttempts (t : ℕ) (fs : ReservationFs) : Quiet t fs fs.makeAttempts := by
  refine of_entries (fun entry ↦ ?_) (fun _ _ ↦ rfl) rfl fun contract h ↦ ?_
  · rcases hdirectory : fs.directory with - | ⟨job, - | entries⟩ <;>
      simp [ReservationFs.makeAttempts, ReservationFs.files?, ReservationFs.attempts?, hdirectory]
  · obtain ⟨directory, hdirectory, hjob⟩ := Option.bind_eq_some_iff.1 h
    simp [ReservationFs.makeAttempts, ReservationFs.job?, hdirectory, hjob]

/-- A directory that takes the place of an empty one, or of none. -/
theorem occupy {job : Option JobContract} (h : ¬fs.occupied = true)
    (staging : Option (Option JobContract)) : Quiet t fs { fs with
      directory := some { job }, staging := Function.update fs.staging t staging } := by
  have hempty : fs.job? = none ∧ fs.attempts? = none := by
    rcases hdirectory : fs.directory with - | ⟨job, attempts⟩ <;>
      simp_all [ReservationFs.occupied, ReservationFs.job?, ReservationFs.attempts?]
  refine of_entries (fun entry ↦ ?_) (fun u hu ↦ Function.update_of_ne hu _ _) rfl
    fun contract hjob ↦ nomatch hempty.1.symm.trans hjob
  rw [ReservationFs.files?, ReservationFs.files?, hempty.2]
  rfl

end Quiet

/-- A published attempt whose files change, but stay complete. -/
theorem project_spec (hinv : ReservationInv maxAttempts n fs) {ordinal : ℕ} {files : AttemptFiles}
    (h : fs.files? (.attempt ordinal) ≠ none)
    (hfiles : files.manifest ≠ none ∧ files.cleanup ≠ none) :
    ReservationInv maxAttempts n (fs.setEntry (.attempt ordinal) (some files)) ∧
      ReservationGuar t fs (fs.setEntry (.attempt ordinal) (some files)) := by
  obtain ⟨found, hfound⟩ := Option.ne_none_iff_exists'.1 h
  have hattempts := ReservationFs.attempts?_of_files? hfound
  refine ⟨⟨?_, ?_, ?_, ?_, fun o ↦ ?_, fun o found ho ↦ ?_⟩, ⟨?_, ?_, ?_, ?_, ?_⟩⟩
  · simpa using hinv.ordinals
  · simpa using hinv.bound
  · simpa using hinv.once
  · simpa using hinv.below
  · rw [ReservationFs.setEntry_created, ← hinv.published o]
    by_cases ho : o = ordinal
    · subst ho
      rw [ReservationFs.setEntry_files?_self hattempts]
      exact ⟨fun _ ↦ h, fun _ ↦ nofun⟩
    · rw [ReservationFs.setEntry_files?_of_ne (by simpa using ho)]
  · by_cases hsame : o = ordinal
    · subst hsame
      obtain rfl := Option.some.inj (ReservationFs.setEntry_files?_cases ho)
      exact hfiles
    · rw [ReservationFs.setEntry_files?_of_ne (by simpa using hsame)] at ho
      exact hinv.complete o found ho
  · exact fun _ _ _ _ ↦ ReservationFs.setEntry_files?_of_ne nofun
  · exact fun _ _ ↦ by rw [ReservationFs.setEntry_staging]
  · rw [ReservationFs.setEntry_created]
    exact List.Subset.refl _
  · exact fun _ hc _ ↦ by rwa [ReservationFs.setEntry_created] at hc
  · exact fun _ h ↦ ReservationFs.setEntry_job?.trans h

/-- **The rename that publishes an attempt.** Nothing is under the name and all lower ordinals are
taken. -/
theorem rename_spec (hinv : ReservationInv maxAttempts n fs) (ht : t < n)
    (hidle : ∀ c ∈ fs.created, c.2 ≠ t) {ordinal p : ℕ} {files : AttemptFiles}
    (hstaged : fs.files? (.reserve ordinal p t) = some files)
    (hfiles : files.manifest ≠ none ∧ files.cleanup ≠ none)
    (hnone : fs.files? (.attempt ordinal) = none) (hpos : 1 ≤ ordinal) (hmax : ordinal ≤ maxAttempts)
    (hlower : ∀ o, 1 ≤ o → o < ordinal → ∃ call, (o, call) ∈ fs.created)
    (fs' : ReservationFs) (hfs' : fs' =
      { (fs.setEntry (.reserve ordinal p t) none).setEntry (.attempt ordinal) (some files) with
        created := fs.created ++ [(ordinal, t)] }) :
    ReservationInv maxAttempts n fs' ∧ ReservationGuar t fs fs' := by
  have hlength : fs.created.length + 1 = ordinal := by
    have hnot := mt (hinv.published ordinal).2 (not_not.2 hnone)
    rw [hinv.exists_created] at hnot
    by_contra hne
    have hlow := (hinv.exists_created (ordinal - 1)).1 (hlower (ordinal - 1) (by omega) (by omega))
    omega
  have hattempts := ReservationFs.attempts?_of_files? hstaged
  have hself : fs'.files? (.attempt ordinal) = some files := by
    subst hfs'
    exact ReservationFs.setEntry_files?_self (ReservationFs.setEntry_attempts? hattempts)
  have hother : ∀ entry, entry ≠ .attempt ordinal → entry ≠ .reserve ordinal p t →
      fs'.files? entry = fs.files? entry := by
    subst hfs'
    intro entry h h'
    exact (ReservationFs.setEntry_files?_of_ne h).trans (ReservationFs.setEntry_files?_of_ne h')
  have hcreated : fs'.created = fs.created ++ [(ordinal, t)] := by rw [hfs']
  refine ⟨⟨?_, ?_, ?_, ?_, fun o ↦ ?_, fun o found ho ↦ ?_⟩, ⟨?_, ?_, ?_, ?_, ?_⟩⟩
  · rw [hcreated, List.map_append, hinv.ordinals, List.length_append, List.length_singleton,
      List.range'_1_concat]
    simp [Nat.add_comm 1, hlength]
  · rw [hcreated, List.length_append, List.length_singleton]
    omega
  · rw [hcreated, List.map_append, List.nodup_append]
    refine ⟨hinv.once, List.nodup_singleton _, ?_⟩
    rintro _ ha b hb rfl
    obtain ⟨c, hc, rfl⟩ := List.mem_map.1 ha
    exact hidle c hc (by simpa using hb)
  · rw [hcreated]
    intro c hc
    rcases List.mem_append.1 hc with hc | hc
    · exact hinv.below c hc
    · exact List.mem_singleton.1 hc ▸ ht
  · by_cases hsame : o = ordinal
    · subst hsame
      rw [hself, hcreated]
      exact ⟨fun _ ↦ ⟨t, by simp⟩, fun _ ↦ nofun⟩
    · rw [hother (.attempt o) (by simpa using hsame) nofun, hinv.published o, hcreated]
      simp [hsame]
  · by_cases hsame : o = ordinal
    · subst hsame
      obtain rfl := Option.some.inj (hself.symm.trans ho)
      exact hfiles
    · rw [hother (.attempt o) (by simpa using hsame) nofun] at ho
      exact hinv.complete o found ho
  · exact fun _ _ u hu ↦ hother _ nofun fun heq ↦ hu (AttemptEntry.reserve.inj heq).2.2
  · subst hfs'
    intro u _
    show ((fs.setEntry _ _).setEntry _ _).staging u = _
    rw [ReservationFs.setEntry_staging, ReservationFs.setEntry_staging]
  · rw [hcreated]
    exact List.subset_append_left ..
  · rw [hcreated]
    intro c hc hne
    rcases List.mem_append.1 hc with hc | hc
    · exact hc
    · obtain rfl := List.mem_singleton.1 hc
      exact absurd rfl hne
  · subst hfs'
    intro contract h
    show ((fs.setEntry _ _).setEntry _ _).job? = _
    rw [ReservationFs.setEntry_job?, ReservationFs.setEntry_job?, h]

end Operations

/-! ### The calls -/

section Calls

variable {maxAttempts p t : ℕ} {fs : ReservationFs} {A : Type}

/-- An error of the file system. -/
def IsFileSystem (e : RuntimeError) : Prop := ∃ code path, e = .fileSystem code path

/-- A computation that returns in a state where `Q` holds, or fails with an error of the file system
in one where `J` does. -/
def Ends (Q : A → ReservationFs → Prop) (J : ReservationFs → Prop) (r : Except RuntimeError A)
    (fs : ReservationFs) : Prop :=
  match r with
  | .ok a => Q a fs
  | .error e => IsFileSystem e ∧ J fs

/-- The call has created nothing. -/
def Idle (t : ℕ) (fs : ReservationFs) : Prop := ∀ c ∈ fs.created, c.2 ≠ t

/-- The ordinals below `ordinal` are taken, by others. -/
structure Ready (t ordinal : ℕ) (fs : ReservationFs) : Prop where
  idle : Idle t fs
  lower : ∀ o, 1 ≤ o → o < ordinal → ∃ call, (o, call) ∈ fs.created

theorem Idle.of_rely {fs' : ReservationFs} (h : Idle t fs) (hr : ReservationRely t fs fs') :
    Idle t fs' := fun c hc ht ↦ h c (hr.created c hc ht) ht

theorem Ready.of_rely {ordinal : ℕ} {fs' : ReservationFs} (h : Ready t ordinal fs)
    (hr : ReservationRely t fs fs') : Ready t ordinal fs' :=
  ⟨h.idle.of_rely hr, fun o ho hlt ↦ (h.lower o ho hlt).imp fun _ hc ↦ hr.kept hc⟩

theorem Quiet.ready {ordinal : ℕ} {fs' : ReservationFs} (hq : Quiet t fs fs')
    (h : Ready t ordinal fs) : Ready t ordinal fs' :=
  ⟨fun c hc ↦ h.idle c (hq.created ▸ hc), hq.created ▸ h.lower⟩

/-- An operation of the file system. -/
theorem safe_fsStep {label : ReservationStep}
    {f : ReservationFs → Except RuntimeError A × ReservationFs}
    {Q : Except RuntimeError A → ReservationFs → Prop}
    (h : ∀ n s, t < n → ReservationInv maxAttempts n s → ReservationRely t fs s →
      ReservationInv maxAttempts n (f s).2 ∧ ReservationGuar t s (f s).2 ∧ Q (f s).1 (f s).2)
    (hfail : ∀ s code, ReservationRely t fs s → Q (.error (.fileSystem code "")) s) :
    (reservationProtocol maxAttempts).Safe p t Q (fsStep label f) fs := by
  refine safe_atomic fun s n ht hinv hrely _ ↦ ?_
  split
  · exact ⟨hinv, ReservationGuar.refl t s, hfail s _ hrely⟩
  · exact h n s ht hinv hrely

/-- An operation that only reads. -/
theorem safe_fsRead {label : ReservationStep} {f : ReservationFs → Except RuntimeError A}
    {Q : Except RuntimeError A → ReservationFs → Prop}
    (h : ∀ n s, t < n → ReservationInv maxAttempts n s → ReservationRely t fs s → Q (f s) s)
    (hfail : ∀ s code, ReservationRely t fs s → Q (.error (.fileSystem code "")) s) :
    (reservationProtocol maxAttempts).Safe p t Q (fsRead label f) fs := by
  refine safe_atomic (f := fun s ↦ (_, s)) fun s n ht hinv hrely _ ↦ ?_
  refine ⟨hinv, ReservationGuar.refl t s, ?_⟩
  dsimp only
  split
  · exact hfail s _ hrely
  · exact h n s ht hinv hrely

/-- A step that leaves the attempts as they are. -/
theorem safe_fsModify {label : ReservationStep} {f : ReservationFs → ReservationFs}
    {J : ReservationFs → Prop} {Q : Unit → ReservationFs → Prop}
    (hquiet : ∀ s, Quiet t s (f s)) (hJ : ∀ s, ReservationRely t fs s → J s)
    (hQ : ∀ s, J s → Q () (f s)) :
    (reservationProtocol maxAttempts).Safe p t (Ends Q J) (fsModify label f) fs :=
  safe_fsStep (fun _ s _ hinv hr ↦ ⟨(hquiet s).inv hinv, (hquiet s).guar, hQ s (hJ s hr)⟩)
    fun s code hr ↦ ⟨⟨code, "", rfl⟩, hJ s hr⟩

/-- Files written through a temporary one. -/
theorem safe_writeJsonAtomic {file : ReservedFile}
    {publish : ReservationFs → Except RuntimeError Unit × ReservationFs} {J : ReservationFs → Prop}
    {Q : Unit → ReservationFs → Prop}
    (hstable : ∀ s s', ReservationRely t s s' → J s → J s') (hJ : J fs)
    (h : ∀ n s, t < n → ReservationInv maxAttempts n s → J s →
      ReservationInv maxAttempts n (publish s).2 ∧ ReservationGuar t s (publish s).2 ∧
        Ends Q J (publish s).1 (publish s).2) :
    (reservationProtocol maxAttempts).Safe p t (Ends Q J) (writeJsonAtomic file publish) fs := by
  have hread {label : ReservationStep} {s : ReservationFs} (hs : J s) :
      (reservationProtocol maxAttempts).Safe p t (Ends (fun _ ↦ J) J)
        (fsRead label fun _ ↦ .ok () : ReservationProg Unit) s :=
    safe_fsRead (fun _ s' _ _ hr ↦ hstable s s' hr hs) fun s' code hr ↦
      ⟨⟨code, "", rfl⟩, hstable s s' hr hs⟩
  refine (hread hJ).bind (fun _ s₁ h₁ ↦ ?_) fun _ _ he ↦ he
  refine (hread h₁).bind (fun _ s₂ h₂ ↦ ?_) fun _ _ he ↦ he
  exact safe_fsStep (fun n s ht hinv hr ↦ h n s ht hinv (hstable s₂ s hr h₂))
    fun s code hr ↦ ⟨⟨code, "", rfl⟩, hstable s₂ s hr h₂⟩

/-- The own staging directory of an ordinal holds `files`. -/
structure Staged (p t ordinal : ℕ) (files : AttemptFiles) (fs : ReservationFs) : Prop where
  ready : Ready t ordinal fs
  entry : fs.files? (.reserve ordinal p t) = some files

theorem Staged.of_rely {ordinal : ℕ} {files : AttemptFiles} (s s' : ReservationFs)
    (hr : ReservationRely t s s') (h : Staged p t ordinal files s) : Staged p t ordinal files s' :=
  ⟨h.ready.of_rely hr, (hr.own ordinal p).trans h.entry⟩

/-- A file written into the own staging directory. -/
theorem safe_stage {ordinal : ℕ} {file : ReservedFile} {files : AttemptFiles}
    (write : AttemptFiles → AttemptFiles) (h : Staged p t ordinal files fs) :
    (reservationProtocol maxAttempts).Safe p t
      (Ends (fun _ ↦ Staged p t ordinal (write files)) (Staged p t ordinal files))
      (writeJsonAtomic file fun fs ↦ fs.publish (.reserve ordinal p t) write) fs := by
  refine safe_writeJsonAtomic Staged.of_rely h fun n s _ hinv hs ↦ ?_
  have hpublish : s.publish (.reserve ordinal p t) write =
      (.ok (), s.setEntry (.reserve ordinal p t) (some (write files))) := by
    rw [ReservationFs.publish, hs.entry]
  have hquiet : Quiet t s (s.setEntry (.reserve ordinal p t) (some (write files))) :=
    .setEntry ordinal p _
  rw [hpublish]
  refine ⟨hquiet.inv hinv, hquiet.guar, hquiet.ready hs.ready, ?_⟩
  exact ReservationFs.setEntry_files?_self (ReservationFs.attempts?_of_files? hs.entry)

/-- The rename, from a complete staging directory. -/
theorem safe_rename {ordinal : ℕ} {files : AttemptFiles} (h : Staged p t ordinal files fs)
    (hfiles : files.manifest ≠ none ∧ files.cleanup ≠ none) (hpos : 1 ≤ ordinal)
    (hmax : ordinal ≤ maxAttempts) :
    (reservationProtocol maxAttempts).Safe p t
      (Ends (fun _ s ↦ (ordinal, t) ∈ s.created) (Ready t ordinal))
      (fsStep (.renameAttempt ordinal) fun fs ↦
        fs.renameAttempt t (.reserve ordinal p t) ordinal) fs := by
  refine safe_fsStep (fun n s ht hinv hr ↦ ?_) fun s code hr ↦
    ⟨⟨code, "", rfl⟩, h.ready.of_rely hr⟩
  have hs := Staged.of_rely _ _ hr h
  rw [ReservationFs.renameAttempt, hs.entry]
  dsimp only
  cases hentry : s.files? (.attempt ordinal) with
  | some existing =>
    -- what is published is complete, and so it is in the way
    have hne : existing ≠ {} := fun heq ↦ (hinv.complete ordinal existing hentry).1 (heq ▸ rfl)
    rw [if_pos (by simp [hne])]
    exact ⟨hinv, ReservationGuar.refl t s, ⟨"ENOTEMPTY", "", rfl⟩, hs.ready⟩
  | none =>
    rw [if_neg (by simp)]
    obtain ⟨hinv', hguar⟩ := rename_spec hinv ht hs.ready.idle hs.entry hfiles hentry hpos hmax
      hs.ready.lower _ rfl
    exact ⟨hinv', hguar, List.mem_append_right _ (List.mem_singleton.2 rfl)⟩

/-- Making an attempt complete and publishing it. -/
theorem safe_publishAttempt {ordinal : ℕ} {manifest : AttemptManifest}
    {cleanup : AttemptCleanupRecord} (h : Staged p t ordinal {} fs) (hpos : 1 ≤ ordinal)
    (hmax : ordinal ≤ maxAttempts) :
    (reservationProtocol maxAttempts).Safe p t
      (Ends (fun _ s ↦ (ordinal, t) ∈ s.created) (Ready t ordinal))
      (publishAttempt t (.reserve ordinal p t) ordinal manifest cleanup) fs := by
  refine (safe_stage _ h).bind (fun _ s₁ h₁ ↦ ?_) fun _ _ he ↦ ⟨he.1, he.2.ready⟩
  refine (safe_stage _ h₁).bind (fun _ s₂ h₂ ↦ ?_) fun _ _ he ↦ ⟨he.1, he.2.ready⟩
  exact safe_rename h₂ ⟨nofun, nofun⟩ hpos hmax

/-- What a reservation of one ordinal comes to. -/
def ReservedAt (contract : JobContract) (t ordinal : ℕ) (reservation : AttemptManifest × Bool)
    (fs : ReservationFs) : Prop :=
  match reservation.2 with
  | true => reservation.1.jobId = contract.jobId ∧
      (reservation.1.attemptId.ordinal, t) ∈ fs.created
  | false => Ready t (ordinal + 1) fs

/-- The handler: the attempt is there already, or the error is thrown. -/
theorem safe_existingAttempt {contract : JobContract} {ordinal : ℕ} {error : RuntimeError}
    (herror : IsFileSystem error) (h : Ready t ordinal fs) :
    (reservationProtocol maxAttempts).Safe p t
      (Ends (ReservedAt contract t ordinal) (Ready t ordinal))
      (existingAttempt (.reserve ordinal p t) ordinal error) fs := by
  have hremove : (reservationProtocol maxAttempts).Safe p t
      (Ends (fun _ : Unit ↦ Ready t ordinal) (Ready t ordinal))
      (fsModify (.removeStaging (.reserve ordinal p t)) fun fs ↦
        fs.setEntry (.reserve ordinal p t) none) fs :=
    safe_fsModify (fun s ↦ .setEntry ordinal p none) (fun s hr ↦ h.of_rely hr)
      fun s hs ↦ (Quiet.setEntry ordinal p none).ready hs
  refine hremove.bind (fun _ s₁ h₁ ↦ ?_) fun _ _ he ↦ he
  have hstat : (reservationProtocol maxAttempts).Safe p t
      (Ends (fun published s ↦ Ready t ordinal s ∧ (published = true → Ready t (ordinal + 1) s))
        (Ready t ordinal))
      (fsRead (.statAttempt ordinal) fun fs ↦ .ok (fs.files? (.attempt ordinal)).isSome) s₁ := by
    refine safe_fsRead (fun n s _ hinv hr ↦ ?_) fun s code hr ↦ ⟨⟨code, "", rfl⟩, h₁.of_rely hr⟩
    have hs := h₁.of_rely hr
    refine ⟨hs, fun hpublished ↦ ⟨hs.idle, fun o ho hlt ↦ ?_⟩⟩
    by_cases hsame : o = ordinal
    · subst hsame
      exact (hinv.published o).1 (Option.isSome_iff_ne_none.1 hpublished)
    · exact hs.lower o ho (by omega)
  refine hstat.bind (fun published s₂ h₂ ↦ ?_) fun _ _ he ↦ he
  cases published with
  | false => exact ⟨herror, h₂.1⟩
  | true =>
    have hread : (reservationProtocol maxAttempts).Safe p t
        (Ends (fun _ s ↦ Ready t (ordinal + 1) s) (Ready t ordinal)) (readAttempt ordinal) s₂ := by
      refine safe_fsRead (fun n s _ _ hr ↦ ?_) fun s code hr ↦ ⟨⟨code, "", rfl⟩, h₂.1.of_rely hr⟩
      split
      · exact (h₂.2 rfl).of_rely hr
      · exact ⟨⟨"ENOENT", "attempt.json", rfl⟩, h₂.1.of_rely hr⟩
    exact hread.bind (fun _ s h ↦ h) fun _ _ he ↦ he

/-- Reserving one ordinal. -/
theorem safe_reserveAttemptAt {contract : JobContract} {ordinal : ℕ}
    {lineage : Option ProposalLineage} {dispatchOperationId : Option Uuid} {now : Timestamp}
    (h : Ready t ordinal fs) (hpos : 1 ≤ ordinal) (hmax : ordinal ≤ maxAttempts) :
    (reservationProtocol maxAttempts).Safe p t
      (Ends (ReservedAt contract t ordinal) (Ready t ordinal))
      (reserveAttemptAt p t contract ordinal lineage dispatchOperationId now) fs := by
  have hmake : (reservationProtocol maxAttempts).Safe p t
      (Ends (fun _ ↦ Staged p t ordinal {}) (Ready t ordinal))
      (fsStep (.makeStaging (.reserve ordinal p t)) fun fs ↦
        fs.makeStaging (.reserve ordinal p t)) fs := by
    refine safe_fsStep (fun n s _ hinv hr ↦ ?_) fun s code hr ↦ ⟨⟨code, "", rfl⟩, h.of_rely hr⟩
    rw [ReservationFs.makeStaging]
    split
    · exact ⟨hinv, ReservationGuar.refl t s, ⟨_, _, rfl⟩, h.of_rely hr⟩
    split
    · exact ⟨hinv, ReservationGuar.refl t s, ⟨_, _, rfl⟩, h.of_rely hr⟩
    · rename_i hattempts _
      have hquiet : Quiet t s (s.setEntry (.reserve ordinal p t) (some {})) := .setEntry ordinal p _
      refine ⟨hquiet.inv hinv, hquiet.guar, hquiet.ready (h.of_rely hr), ?_⟩
      exact ReservationFs.setEntry_files?_self (by simpa using hattempts)
  refine hmake.bind (fun _ s₁ h₁ ↦ ?_) fun _ _ he ↦ he
  refine ((safe_publishAttempt h₁ hpos hmax).bind (R := _) (Q := Ends
    (ReservedAt contract t ordinal) (Ready t ordinal)) (fun _ s₂ h₂ ↦ ?_)
    fun _ _ he ↦ he).catching (fun _ _ hok ↦ hok) fun e s₂ he ↦ ?_
  · exact ⟨rfl, h₂⟩
  · exact safe_existingAttempt he.1 he.2

theorem AttemptAnswer.of_fileSystem {contract : JobContract} {e : RuntimeError}
    (he : IsFileSystem e) (h : Idle t fs) : AttemptAnswer fs t contract (.error e) := by
  obtain ⟨code, path, rfl⟩ := he
  exact .failed h nofun

/-- What `reserveAttempt` returns, as its caller's reply. -/
def attemptReply (result : Except RuntimeError AttemptManifest) :
    Except RuntimeError ReservationReply := result.map (.attempt · true)

/-- The loop, from an ordinal below which all are taken. -/
theorem safe_reserveAttemptFrom {contract : JobContract} {lineage : Option ProposalLineage}
    {dispatchOperationId : Option Uuid} {now : Timestamp}
    (hcontract : contract.resources.maxAttemptsPerJob = maxAttempts) (ordinal remaining : ℕ)
    (hpos : 1 ≤ ordinal) (hsum : ordinal + remaining = maxAttempts + 1)
    (h : Ready t ordinal fs) :
    (reservationProtocol maxAttempts).Safe p t
      (fun r s ↦ AttemptAnswer s t contract (attemptReply r))
      (reserveAttemptFrom p t contract lineage dispatchOperationId now ordinal remaining) fs := by
  induction remaining generalizing ordinal fs with
  | zero =>
    refine .failed h.idle fun _ o ho hle ↦ h.lower o ho ?_
    omega
  | succ remaining ih =>
    refine (safe_reserveAttemptAt h hpos (by omega)).bind (fun reservation s hs ↦ ?_)
      fun e s he ↦ .of_fileSystem he.1 he.2.idle
    obtain ⟨manifest, created⟩ := reservation
    cases created with
    | true => exact .created hs.1 hs.2
    | false => exact ih (ordinal + 1) (by omega) (by omega) hs

/-- `mkdir` of the directory of the attempts. -/
theorem safe_makeAttemptsRoot (h : Idle t fs) :
    (reservationProtocol maxAttempts).Safe p t (Ends (fun _ ↦ Ready t 1) (Ready t 1))
      makeAttemptsRoot fs := by
  have hready : Ready t 1 fs := ⟨h, fun o ho hlt ↦ by omega⟩
  have hmake {s : ReservationFs} {label : ReservationStep} {f : ReservationFs → ReservationFs}
      (hs : Ready t 1 s) (hf : ∀ s, Quiet t s (f s)) :
      (reservationProtocol maxAttempts).Safe p t (Ends (fun _ ↦ Ready t 1) (Ready t 1))
        (fsModify label f) s :=
    safe_fsModify hf (fun _ hr ↦ hs.of_rely hr) fun s hs ↦ (hf s).ready hs
  refine (hmake hready (Quiet.makeJobDirectory t)).bind (fun _ s₁ h₁ ↦ ?_) fun _ _ he ↦ he
  exact hmake h₁ (Quiet.makeAttempts t)

/-- `reserveAttempt` ends as it may. -/
theorem safe_reserveAttempt {contract : JobContract} {lineage : Option ProposalLineage}
    {dispatchOperationId : Option Uuid} {now : Timestamp}
    (hcontract : contract.resources.maxAttemptsPerJob = maxAttempts) (h : Idle t fs) :
    (reservationProtocol maxAttempts).Safe p t
      (fun r s ↦ AttemptAnswer s t contract (attemptReply r))
      (reserveAttempt p t contract lineage dispatchOperationId now) fs := by
  refine (safe_makeAttemptsRoot h).bind (fun _ s₁ h₁ ↦ ?_)
    fun e s he ↦ .of_fileSystem he.1 he.2.idle
  exact safe_reserveAttemptFrom hcontract 1 _ le_rfl (by omega) h₁

/-- `reserveInitialAttempt` keeps the agreement. -/
theorem keeps_reserveInitialAttempt {contract : JobContract} {dispatchOperationId : Option Uuid}
    {now : Timestamp} (hmax : 1 ≤ maxAttempts) (h : Idle t fs) :
    (reservationProtocol maxAttempts).Safe p t (fun _ _ ↦ True)
      (reserveInitialAttempt p t contract dispatchOperationId now) fs := by
  refine (safe_makeAttemptsRoot h).bind (fun _ s₁ h₁ ↦ ?_) fun _ _ _ ↦ trivial
  exact (safe_reserveAttemptAt h₁ le_rfl hmax).mono fun _ _ _ ↦ trivial

/-- A projection keeps the agreement. -/
theorem keeps_project {file : ReservedFile} {ordinal : ℕ} {write : AttemptFiles → AttemptFiles}
    (hwrite : ∀ files, files.manifest ≠ none ∧ files.cleanup ≠ none →
      (write files).manifest ≠ none ∧ (write files).cleanup ≠ none) :
    (reservationProtocol maxAttempts).Keeps p t
      (writeJsonAtomic file fun fs ↦ fs.publish (.attempt ordinal) write) := by
  refine Safe.keeps fun fs ↦ safe_writeJsonAtomic (J := fun _ ↦ True) (Q := fun _ _ ↦ True)
    (fun _ _ _ _ ↦ trivial) trivial fun n s _ hinv _ ↦ ?_
  rw [ReservationFs.publish]
  split
  · rename_i files hfiles
    obtain ⟨hinv', hguar⟩ := project_spec (t := t) hinv
      (Option.ne_none_iff_exists'.2 ⟨files, hfiles⟩)
      (hwrite files (hinv.complete ordinal files hfiles))
    exact ⟨hinv', hguar, trivial⟩
  · exact ⟨hinv, ReservationGuar.refl t s, ⟨_, _, rfl⟩, trivial⟩

/-! ### Jobs -/

/-- A step on the own staging directory of a job. -/
theorem Quiet.jobStaging (fs : ReservationFs) (job : Option (Option JobContract)) :
    Quiet t fs { fs with staging := Function.update fs.staging t job } :=
  .of_entries (fun _ ↦ rfl) (fun _ hu ↦ Function.update_of_ne hu _ _) rfl fun _ h ↦ h

/-- Making a job complete and publishing it. -/
theorem safe_publishJob {contract : JobContract} :
    (reservationProtocol maxAttempts).Safe p t
      (Ends (fun _ s ↦ s.job? = some contract) fun _ ↦ True) (publishJob t contract) fs := by
  have hmake : (reservationProtocol maxAttempts).Safe p t
      (Ends (fun _ s ↦ (s.staging t).isSome) fun _ ↦ True)
      (fsStep .makeJobStaging fun fs ↦ fs.makeJobStaging t) fs := by
    refine safe_fsStep (fun n s _ hinv _ ↦ ?_) fun s code _ ↦ ⟨⟨code, "", rfl⟩, trivial⟩
    rw [ReservationFs.makeJobStaging]
    split
    · exact ⟨hinv, ReservationGuar.refl t s, ⟨_, _, rfl⟩, trivial⟩
    split
    · exact ⟨hinv, ReservationGuar.refl t s, ⟨_, _, rfl⟩, trivial⟩
    · refine ⟨(Quiet.jobStaging s _).inv hinv, (Quiet.jobStaging s _).guar, ?_⟩
      show (Function.update s.staging t _ t).isSome
      rw [Function.update_self]
      rfl
  have hwrite {s : ReservationFs} (hs : (s.staging t).isSome) :
      (reservationProtocol maxAttempts).Safe p t
        (Ends (fun _ s ↦ s.staging t = some (some contract)) fun s ↦ (s.staging t).isSome)
        (writeJsonAtomic .job fun fs ↦ fs.publishJob t contract) s := by
    refine safe_writeJsonAtomic (fun s s' hr h ↦ hr.staging ▸ h) hs fun n s _ hinv hs ↦ ?_
    have hpublish : s.publishJob t contract = (.ok (),
        { s with staging := Function.update s.staging t (some (some contract)) }) := if_pos hs
    rw [hpublish]
    exact ⟨(Quiet.jobStaging s _).inv hinv, (Quiet.jobStaging s _).guar, Function.update_self ..⟩
  refine hmake.bind (fun _ s₁ h₁ ↦ ?_) fun _ _ he ↦ he
  refine (hwrite h₁).bind (fun _ s₂ h₂ ↦ ?_) fun _ _ he ↦ ⟨he.1, trivial⟩
  refine safe_fsStep (fun n s _ hinv hr ↦ ?_) fun s code _ ↦ ⟨⟨code, "", rfl⟩, trivial⟩
  rw [ReservationFs.renameJob, hr.staging, h₂]
  dsimp only
  by_cases hoccupied : s.occupied = true
  · rw [if_pos hoccupied]
    exact ⟨hinv, ReservationGuar.refl t s, ⟨_, _, rfl⟩, trivial⟩
  · rw [if_neg hoccupied]
    have hquiet : Quiet t s { s with
        directory := some { job := some contract }
        staging := Function.update s.staging t none } := .occupy hoccupied none
    exact ⟨hquiet.inv hinv, hquiet.guar, rfl⟩

/-- `reserveJob` ends as it may. -/
theorem safe_reserveJob {contract : JobContract} :
    (reservationProtocol maxAttempts).Safe p t (fun r s ↦ JobAnswer s contract r)
      (reserveJob t contract) fs := by
  have hmake : (reservationProtocol maxAttempts).Safe p t
      (Ends (fun _ : Unit ↦ fun _ ↦ True) fun _ ↦ True)
      (fsModify .makeJobs fun fs ↦ { fs with jobs := true }) fs :=
    safe_fsModify (fun s ↦ .of_entries (fun _ ↦ rfl) (fun _ _ ↦ rfl) rfl fun _ h ↦ h)
      (fun _ _ ↦ trivial) fun _ _ ↦ trivial
  refine hmake.bind (fun _ s₁ _ ↦ ?_) fun _ _ _ ↦ .failed
  have hpublished : (reservationProtocol maxAttempts).Safe p t
      (fun r s ↦ JobAnswer s contract r)
      ((publishJob t contract).bind fun _ ↦ .ret (.ok (.job contract true))) s₁ :=
    safe_publishJob.bind (fun _ _ h ↦ .reserved h rfl) fun _ _ _ ↦ .failed
  refine hpublished.catching (fun _ _ h ↦ h) fun error s₂ _ ↦ ?_
  have hremove : (reservationProtocol maxAttempts).Safe p t
      (Ends (fun _ : Unit ↦ fun _ ↦ True) fun _ ↦ True)
      (fsModify .removeJobStaging fun fs ↦
        { fs with staging := Function.update fs.staging t none }) s₂ :=
    safe_fsModify (fun s ↦ .jobStaging s none) (fun _ _ ↦ trivial) fun _ _ ↦ trivial
  refine hremove.bind (fun _ s₃ _ ↦ ?_) fun _ _ _ ↦ .failed
  have hread : (reservationProtocol maxAttempts).Safe p t
      (Ends (fun stored s ↦ s.job? = some stored) fun _ ↦ True) readJob s₃ := by
    refine safe_fsRead (fun n s _ _ _ ↦ ?_) fun s code _ ↦ ⟨⟨code, "", rfl⟩, trivial⟩
    split
    · rename_i stored hstored
      exact hstored
    · exact ⟨⟨_, _, rfl⟩, trivial⟩
  refine hread.attempt_bind fun r s₄ hr ↦ ?_
  cases r with
  | error _ => exact .failed
  | ok existing =>
    refine Safe.ite (fun _ ↦ .failed) fun hsame ↦ ?_
    exact .reserved hr (not_not.1 hsame).symm

end Calls

/-! ### Soundness -/

theorem AttemptAnswer.of_rely {t : ℕ} {contract : JobContract} {fs fs' : ReservationFs}
    {result : Except RuntimeError ReservationReply} (h : AttemptAnswer fs t contract result)
    (hr : ReservationRely t fs fs') : AttemptAnswer fs' t contract result := by
  cases h with
  | created hjob hmem => exact .created hjob (hr.kept hmem)
  | failed hidle hexhausted =>
    exact .failed (Idle.of_rely hidle hr) fun heq o ho hle ↦
      (hexhausted heq o ho hle).imp fun _ hc ↦ hr.kept hc

theorem JobAnswer.of_rely {t : ℕ} {contract : JobContract} {fs fs' : ReservationFs}
    {result : Except RuntimeError ReservationReply} (h : JobAnswer fs contract result)
    (hr : ReservationRely t fs fs') : JobAnswer fs' contract result := by
  cases h with
  | reserved hstored hsame => exact .reserved (hr.job _ hstored) hsame
  | failed => exact .failed

variable {jobId : JobId} {maxAttempts : ℕ}

theorem reservationProtocol_sound : (reservationProtocol maxAttempts).Sound
    (reservationSystem jobId maxAttempts) fun _ _ _ ↦ True where
  inv_mono hle h := { h with below := fun c hc ↦ Nat.lt_of_lt_of_le (h.below c hc) hle }
  rely_refl := ReservationRely.refl _ _
  rely_trans := ReservationRely.trans
  guar_rely hne _ _ _ h := h.rely hne
  post_stable _ _ _ _ _ _ _ := trivial
  call {p t k fs} hinv hentry := by
    have hidle : Idle t fs := fun c hc ↦ Nat.ne_of_lt (hinv.below c hc)
    cases k with
    | reserveJob contract => exact safe_reserveJob.mono fun _ _ _ ↦ trivial
    | reserveAttempt contract lineage dispatchOperationId now =>
      have hcontract : contract.resources.maxAttemptsPerJob = maxAttempts := by
        simp only [reservationSystem, isCallOn, Bool.and_eq_true, decide_eq_true_eq] at hentry
        exact hentry.1.2
      exact (safe_reserveAttempt hcontract hidle).bind (fun _ _ _ ↦ trivial) fun _ _ _ ↦ trivial
    | reserveInitialAttempt contract dispatchOperationId now =>
      have hmax : 1 ≤ maxAttempts := by
        simp only [reservationSystem, isCallOn, Bool.and_eq_true, decide_eq_true_eq] at hentry
        exact hentry.2
      exact (keeps_reserveInitialAttempt hmax hidle).bind (fun _ _ _ ↦ trivial) fun _ _ _ ↦ trivial
    | projectAttempt ordinal manifest =>
      have hproject : (reservationProtocol maxAttempts).Keeps p t
          (writeJsonAtomic (.manifest (.attempt ordinal)) fun fs ↦
            fs.publish (.attempt ordinal) fun files ↦ { files with manifest := some manifest }) :=
        keeps_project fun files h ↦ ⟨nofun, h.2⟩
      exact hproject.bind (fun _ ↦ keeps_ret _) fs
    | projectCleanup ordinal cleanup =>
      have hproject : (reservationProtocol maxAttempts).Keeps p t
          (writeJsonAtomic (.cleanup (.attempt ordinal)) fun fs ↦
            fs.publish (.attempt ordinal) fun files ↦ { files with cleanup := some cleanup }) :=
        keeps_project fun files h ↦ ⟨h.1, nofun⟩
      exact hproject.bind (fun _ ↦ keeps_ret _) fs
    | failStorage failure =>
      refine safe_modify_bind fun s n _ hinv _ _ ↦ ?_
      have hquiet : Quiet t s { s with failure := failure } :=
        .of_entries (fun _ ↦ rfl) (fun _ _ ↦ rfl) rfl fun _ h ↦ h
      exact ⟨hquiet.inv hinv, hquiet.guar, trivial⟩
  fork _ _ h := h.elim
  crash_inv h := h
  crash_rely _ _ := ReservationRely.refl _ _

theorem isReserveName_reserve (jobId : JobId) (ordinal p u : ℕ) :
    isReserveName ((AttemptEntry.reserve ordinal p u).text jobId) := by
  refine ⟨(AttemptId.text ⟨jobId, ordinal⟩).toList, (toString p ++ "-" ++ toString u).toList, ?_⟩
  simp [AttemptEntry.text, String.toList_append]

theorem ReservationInv.safe {n : ℕ} {fs : ReservationFs} (h : ReservationInv maxAttempts n fs) :
    ReservationFsSafe jobId maxAttempts fs where
  ordinals := h.ordinals
  bound := h.bound
  creator ordinal := by
    rw [h.published]
    refine ⟨fun ⟨call, hc⟩ ↦ ⟨call, hc, fun call' hc' ↦ ?_⟩, fun ⟨call, hc, _⟩ ↦ ⟨call, hc⟩⟩
    -- the ordinals are distinct, so one call has this one
    have hnodup : (fs.created.map Prod.fst).Nodup := h.ordinals ▸ List.nodup_range'
    exact congrArg Prod.snd (List.inj_on_of_nodup_map hnodup hc' hc rfl)
  once := h.once
  visible entry files hentry hname := by
    cases entry with
    | attempt ordinal => exact h.complete ordinal files hentry
    | reserve ordinal p u => exact absurd (isReserveName_reserve jobId ordinal p u) hname

theorem reservationInv_empty : ReservationInv maxAttempts 0 {} where
  ordinals := rfl
  bound := Nat.zero_le _
  once := List.nodup_nil
  below _ h := nomatch h
  published _ := ⟨fun h ↦ absurd rfl h, fun ⟨_, h⟩ ↦ nomatch h⟩
  complete _ _ h := nomatch h

end Reservation

end CodeConductor
