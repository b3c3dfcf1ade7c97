import CodeConductor.Storage.Journal

/-!
# What the journal promises

`JournalFences` is the promise the stores rely on: whatever readers and writers do, and wherever
they die, the commits of a record are numbered consecutively, each is made by one writer from the
snapshot before it, the projection never overtakes the journal, and a read started after a call
returned a snapshot yields that snapshot or a later one.

The promise is kept by every run whose commits stay within the revisions the reader can name. It
breaks right after: the thirteen-digit directory of revision `lastNamedRevision + 1` is committed,
but no reader keeps its name, so the projection is ahead of the journal the reader sees and the
record cannot be read any more.
-/

namespace CodeConductor

open Async Async.Prog Async.Protocol

variable {R P : Type}

/-- A configuration of the processes using one record. -/
abbrev RecordConfig (R P : Type) :=
  Config RecordStep (RecordFs R P) (RecordCall R P) RuntimeError R ℕ

/-- The journal of a record created as `base` is in order. -/
structure RevisionFenced (J : RecordType R P) (base : R) (fs : RecordFs R P) : Prop where
  /-- The committed snapshots have the consecutive revisions after the base. -/
  consecutive : ∀ (i : ℕ) (c : Commit R P), fs.committed[i]? = some c →
    J.revision c.value = J.revision base + i + 1
  /-- A revision is committed once, hence by one writer. -/
  unique : ∀ (i j : ℕ) (c d : Commit R P), fs.committed[i]? = some c → fs.committed[j]? = some d →
    J.revision c.value = J.revision d.value → i = j ∧ c = d
  /-- Each committed snapshot was computed from the one of the preceding revision. -/
  computed : ∀ (i : ℕ) (c : Commit R P), fs.committed[i]? = some c →
    ∃ previous, (fs.history base)[i]? = some previous ∧
      J.updated previous c.patch c.now = .ok c.value
  /-- The revision directories hold the committed snapshots and nothing else. -/
  journal : ∀ (name : String) (content : Option R),
    fs.entries.lookup (.revision name) = some content ↔
      ∃ c ∈ fs.committed, name = revisionName (J.revision c.value) ∧ content = some c.value
  /-- The projection does not overtake the newest snapshot. -/
  projection : ∀ newest, (fs.history base).getLast? = some newest →
    J.revision fs.projection ≤ J.revision newest

/-- A read called after some call returned a snapshot yields that snapshot or a later one. -/
def ReadsFollowReturns [DecidableEq R] (J : RecordType R P)
    (ok : ℕ → ℕ → RecordStep → RecordFs R P → Prop) (init : RecordConfig R P) : Prop :=
  ∀ (a a' b c : RecordConfig R P) (w q : ℕ) (v : R) (r : Except RuntimeError R),
    (recordSystem J).Reaches ok init a → a.result w = some (.ok v) →
    (recordSystem J).Reaches ok a a' → (recordSystem J).advance a' (.call q .read) = some b →
    (recordSystem J).Reaches ok b c → c.result a'.next = some r →
      ∃ v', r = .ok v' ∧ J.revision v ≤ J.revision v'

/-- The journal's promise for the runs all of whose steps meet `ok`. -/
def JournalFences [DecidableEq R] (J : RecordType R P) (base : R)
    (ok : ℕ → ℕ → RecordStep → RecordFs R P → Prop) : Prop :=
  (∀ cfg : RecordConfig R P, (recordSystem J).Reaches ok (.start (.create base)) cfg →
    RevisionFenced J base cfg.shared) ∧
  ReadsFollowReturns J ok (.start (.create base))

/-- What a read ends with that was called when the history had `m` commits. -/
def ReadPost (base : R) (m : ℕ) (r : Except RuntimeError R) (fs : RecordFs R P) : Prop :=
  ∃ i v, r = .ok v ∧ (fs.history base)[i]? = some v ∧ m ≤ i

namespace RecordFs.Fenced

variable {J : RecordType R P} {base : R} {n : ℕ} {fs : RecordFs R P}

theorem revisionFenced (h : Fenced J base n fs) : RevisionFenced J base fs where
  consecutive i c hc := h.revision_of_committed hc
  unique i j c d hc hd heq := by
    rw [h.revision_of_committed hc, h.revision_of_committed hd] at heq
    obtain rfl : i = j := by omega
    exact ⟨rfl, Option.some.inj (hc.symm.trans hd)⟩
  computed := h.computed
  journal name content := by
    refine ⟨fun hl ↦ ?_, fun ⟨c, hc, hname, hcontent⟩ ↦ ?_⟩
    · obtain ⟨c, hc, rfl⟩ := h.entry name (AList.lookup_isSome.1 (by rw [hl]; rfl))
      have hdir := h.directory c hc
      rw [hl] at hdir
      exact ⟨c, hc, rfl, Option.some.inj hdir⟩
    · rw [hname, hcontent]
      exact h.directory c hc
  projection newest hnew := by
    obtain ⟨i, hi⟩ := List.getElem?_of_mem h.projection
    have hilt := (List.getElem?_eq_some_iff.1 hi).1
    rw [List.getLast?_eq_getElem?] at hnew
    rw [h.revision_of_history hi, h.revision_of_history hnew]
    omega

end RecordFs.Fenced

section Runs

variable [DecidableEq R] {J : RecordType R P} {base : R}

omit [DecidableEq R] in
theorem pool_create :
    (recordProtocol J base).Pool (fun _ ↦ RecordPost base) (.start (.create base)) :=
  pool_start RecordFs.Fenced.create

/-- Every run within the revisions the reader can name keeps the promise. -/
theorem journalFences (J : RecordType R P) (base : R) : JournalFences J base namedCommits := by
  have hsound := recordProtocol_sound J base
  refine ⟨fun cfg hcfg ↦ (hsound.pool pool_create hcfg).inv.revisionFenced, ?_⟩
  intro a a' b c w q v r ha hw haa' hcall hbc hr
  have hpa := hsound.pool pool_create ha
  have hpa' := hsound.pool hpa haa'
  -- what the first call returned was in the history when it returned, and stays there
  obtain ⟨p, hth⟩ := Config.result_eq_some.1 hw
  have hva : v ∈ a.shared.history base := hpa.safe hth v rfl
  obtain ⟨i, hi⟩ := List.getElem?_of_mem hva
  have hpre : a.shared.committed <+: a'.shared.committed :=
    hsound.holds_of_reaches (J := fun fs ↦ a.shared.committed <+: fs.committed)
      (fun _ hg hJ ↦ hJ.trans hg.1) (fun _ hJ ↦ hJ) hpa List.prefix_rfl haa'
  have hilt := (List.getElem?_eq_some_iff.1 (RecordFs.history_getElem?_mono hpre hi)).1
  rw [RecordFs.length_history] at hilt
  -- the read is followed from the moment it was called
  obtain ⟨j, v', rfl, hj, hle⟩ := hsound.result_of_call
    (fun _ _ _ _ _ hrely ⟨j, v', hr, hj, hle⟩ ↦
      ⟨j, v', hr, RecordFs.history_getElem?_mono hrely.1 hj, hle⟩)
    hpa' safe_readRecord hcall hbc hr
  have hpc := hsound.pool (hsound.pool_step hpa' (e := .call q .read) trivial hcall) hbc
  refine ⟨v', rfl, ?_⟩
  rw [hpa.inv.revision_of_history hi, hpc.inv.revision_of_history hj]
  omega

end Runs

/-- **The journal fences revisions**, for the three kinds of records, in every run that commits no
revision beyond `lastNamedRevision`. -/
theorem records_journalFences (jobId : JobId) (item : QueueItem) (attemptId : AttemptId)
    (attempt : AttemptManifest) (cleanup : AttemptCleanupRecord) :
    JournalFences (queueItemRecord jobId) item namedCommits ∧
    JournalFences (attemptRecord attemptId) attempt namedCommits ∧
    JournalFences (attemptCleanupRecord attemptId) cleanup namedCommits :=
  ⟨journalFences _ item, journalFences _ attempt, journalFences _ cleanup⟩

/-- A queue item one revision short of the last one the reader can name. -/
def worn : QueueItem where
  jobId := "job"
  status := .queued
  revision := 999999999998
  priority := 0
  dependsOnJobIds := []
  createdAt := 0
  updatedAt := 0

/-- An update of the queue item that changes nothing but its revision and time. -/
def touch (expected : QueueItem) (now : Timestamp) : Event (RecordCall QueueItem QueueUpdate) ℕ :=
  .call 1 (.update expected (.update {}) now fun _ ↦ none)

/-- Two updates one after the other, the second one beyond the last name. -/
def touchTwice : List (Event (RecordCall QueueItem QueueUpdate) ℕ) :=
  touch worn 1 :: List.replicate 14 (.run 0) ++
    touch (worn.merge {} 1) 2 :: List.replicate 15 (.run 1)

/-- **Beyond the last name the promise breaks**: two writers commit revisions `999999999999` and
`1000000000000`, both return, and a read called afterwards throws. -/
theorem not_journalFences_unrestricted :
    ¬ JournalFences (queueItemRecord "job") worn System.unrestricted := by
  rintro ⟨-, hreads⟩
  have hrun : ((recordSystem (queueItemRecord "job")).advanceAll (fun _ _ _ _ ↦ true)
      (.start (.create worn)) touchTwice).map (fun a ↦ (a.result 1, a.next)) =
        some (some (.ok ((worn.merge {} 1).merge {} 2)), 2) := by
    decide +kernel
  have hread : ((recordSystem (queueItemRecord "job")).advanceAll (fun _ _ _ _ ↦ true)
      (.start (.create worn)) (touchTwice ++ .call 1 .read :: List.replicate 3 (.run 2))).map (fun c ↦ c.result 2) =
        some (some (.error (.plain ("Queue item job projection revision 1000000000000 is ahead " ++
          "of its transition journal 999999999999")))) := by
    decide +kernel
  obtain ⟨a, ha, hres⟩ := Option.map_eq_some_iff.1 hrun
  obtain ⟨hret, hnext⟩ := Prod.mk.inj hres
  rw [System.advanceAll_append, ha] at hread
  obtain ⟨c, hc, hthrown⟩ := Option.map_eq_some_iff.1 hread
  obtain ⟨-, b, hb, hbc⟩ := System.advanceAll_cons hc
  have hinit := (System.reaches_of_advanceAll ha).mono fun _ _ _ _ _ ↦ trivial
  have hrest := (System.reaches_of_advanceAll hbc).mono fun _ _ _ _ _ ↦ trivial
  obtain ⟨v', hv', -⟩ := hreads a a b c 1 1 _ _ hinit hret .refl hb hrest (hnext ▸ hthrown)
  exact nomatch hv'

end CodeConductor
