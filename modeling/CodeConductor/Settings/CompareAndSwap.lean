import CodeConductor.Settings.Store

/-!
# Compare and swap on the settings

`SettingsCas` is what the revision of the settings is for: a revision is produced once, a
replacement is visible until an update that names its revision replaces it, and every other changing
update is refused and replaces nothing. It holds in the runs in which a rename finds the document
its update read.

The code does not see to that: the comparison is made when the document is read, and the rename
comes after the staging file was written and synced. Two updates that name one revision may both
have read before either renames. Both then succeed, both produce the next revision, and the
settings of the first are gone without an update that named its revision.
-/

namespace CodeConductor

open Async Async.Prog Async.Protocol

/-- A configuration of the updating processes. -/
abbrev SettingsConfig := Config SettingsStep SettingsFs SettingsCall SettingsError
  (Option ConsoleSettingsDocument) ℕ

/-- The file a read of this document comes from. -/
def SettingsFile.of (current : Option ConsoleSettingsDocument) : SettingsFile :=
  current.elim .missing .document

/-- A rename finds the document its update read. -/
def renamesCurrent : ℕ → ℕ → SettingsStep → SettingsFs → Bool
  | _, _, .rename seen, fs => fs.file = .of seen
  | _, _, _, _ => true

/-! ### What is promised -/

/-- The file and its history. -/
structure SettingsFileSafe (fs : SettingsFs) : Prop where
  /-- A revision is produced once. -/
  produced : fs.replaced.Pairwise fun r r' ↦ r.document.revision ≠ r'.document.revision
  /-- A replacement is visible until an update that names its revision. -/
  visible : ∀ newer r older, fs.replaced = newer ++ r :: older →
    (newer = [] → fs.file = .document r.document) ∧
      ∀ (next : Replacement) (newer' : List Replacement), newer = newer' ++ [next] →
        next.expectedRevision = r.document.revision

/-- How an update by `call` may end. -/
inductive UpdateAnswer (initial : SettingsFile) (fs : SettingsFs) (call : ℕ)
    (settings : ConsoleSettings) (expected : Int) :
    Except SettingsError (Option ConsoleSettingsDocument) → Prop
  /-- The file was replaced, once. -/
  | replaced {document : ConsoleSettingsDocument} : ⟨call, expected, document⟩ ∈ fs.replaced →
      (∀ r ∈ fs.replaced, r.call = call → r.document = document) → document.settings = settings →
      document.revision = expected + 1 → UpdateAnswer initial fs call settings expected
        (.ok (some document))
  /-- The settings are those of the document already. -/
  | unchanged {document : ConsoleSettingsDocument} : (∀ r ∈ fs.replaced, r.call ≠ call) →
      (initial = .document document ∨ ∃ r ∈ fs.replaced, r.document = document) →
      document.settings = settings → document.revision = expected →
      UpdateAnswer initial fs call settings expected (.ok (some document))
  /-- The update is refused, for its revision if nothing else is wrong with it. -/
  | refused {error : SettingsError} : (∀ r ∈ fs.replaced, r.call ≠ call) →
      (parseConsoleSettings settings = .ok () → (∀ reason, initial ≠ .unreadable reason) →
        expected < maxSafeInteger →
          ∃ actual : ℕ, (actual : Int) ≠ expected ∧ error = .revisionConflict expected actual) →
      UpdateAnswer initial fs call settings expected (.error error)

/-- Compare and swap, in every run from `initial` whose steps meet `ok`: every state reached has a
safe file, and every update made in it ends as it may. -/
structure SettingsCas (initial : SettingsFile) (ok : ℕ → ℕ → SettingsStep → SettingsFs → Prop) :
    Prop where
  file : ∀ cfg : SettingsConfig, settingsSystem.Reaches ok (.start ⟨initial, 0, []⟩) cfg →
    SettingsFileSafe cfg.shared
  answer : ∀ (a b c : SettingsConfig) (p : ℕ) (settings : ConsoleSettings) (expected : Int)
    (result : Except SettingsError (Option ConsoleSettingsDocument)),
    settingsSystem.Reaches ok (.start ⟨initial, 0, []⟩) a →
    settingsSystem.advance a (.call p (.update settings expected)) = some b →
    settingsSystem.Reaches ok b c → c.result a.next = some result →
    UpdateAnswer initial c.shared a.next settings expected result

/-! ### The chain of replacements -/

/-- The revision of a file that can be replaced. -/
def SettingsFile.revision? : SettingsFile → Option ℕ
  | missing => some 0
  | document stored => some stored.revision
  | unreadable _ => none

/-- Each replacement is of the revision its update named, by the next one. -/
def ReplacementChain (initial : SettingsFile) : List Replacement → SettingsFile → Prop
  | [], file => file = initial
  | r :: older, file => file = .document r.document ∧ r.document.revision = r.expectedRevision + 1 ∧
      ∃ before actual, ReplacementChain initial older before ∧ before.revision? = some actual ∧
        r.expectedRevision = actual

namespace ReplacementChain

variable {initial file : SettingsFile} {replaced : List Replacement}

/-- Revisions grow. -/
theorem le (h : ReplacementChain initial replaced file) {r : Replacement} (hr : r ∈ replaced) :
    ∃ stored, file = .document stored ∧ r.document.revision ≤ stored.revision := by
  induction replaced generalizing file with
  | nil => exact absurd hr List.not_mem_nil
  | cons newest older ih =>
    obtain ⟨hfile, hrevision, before, actual, hchain, hactual, hexpected⟩ := h
    refine ⟨newest.document, hfile, ?_⟩
    rcases List.mem_cons.1 hr with rfl | hr
    · exact Nat.le_refl _
    · obtain ⟨stored, rfl, hle⟩ := ih hchain hr
      have hsame : stored.revision = actual := Option.some.inj hactual
      omega

theorem produced (h : ReplacementChain initial replaced file) :
    replaced.Pairwise fun r r' ↦ r.document.revision ≠ r'.document.revision := by
  induction replaced generalizing file with
  | nil => exact .nil
  | cons newest older ih =>
    obtain ⟨-, hrevision, before, actual, hchain, hactual, hexpected⟩ := h
    refine List.pairwise_cons.2 ⟨fun r hr ↦ ?_, ih hchain⟩
    obtain ⟨stored, rfl, hle⟩ := hchain.le hr
    have hsame : stored.revision = actual := Option.some.inj hactual
    omega

theorem visible (h : ReplacementChain initial replaced file) {newer older : List Replacement}
    {r : Replacement} (heq : replaced = newer ++ r :: older) :
    (newer = [] → file = .document r.document) ∧
      ∀ (next : Replacement) (newer' : List Replacement), newer = newer' ++ [next] →
        next.expectedRevision = r.document.revision := by
  induction newer generalizing replaced file with
  | nil =>
    subst heq
    exact ⟨fun _ ↦ h.1, fun next newer' hnil ↦ by simp at hnil⟩
  | cons newest newer ih =>
    subst heq
    obtain ⟨-, -, before, actual, hchain, hactual, hexpected⟩ := h
    obtain ⟨hfirst, hlater⟩ := ih hchain rfl
    refine ⟨nofun, fun next newer' hsplit ↦ ?_⟩
    cases newer' with
    | nil =>
      obtain ⟨rfl, rfl⟩ := List.cons.inj hsplit
      have hbefore := hfirst rfl
      subst hbefore
      have hsame : r.document.revision = actual := Option.some.inj hactual
      omega
    | cons newest' newer' =>
      obtain ⟨rfl, hrest⟩ := List.cons.inj hsplit
      exact hlater next newer' hrest

/-- What the file holds was there at first, or replaced it. -/
theorem stored (h : ReplacementChain initial replaced file) {document : ConsoleSettingsDocument}
    (hfile : file = .document document) :
    initial = .document document ∨ ∃ r ∈ replaced, r.document = document := by
  cases replaced with
  | nil => exact .inl (h.symm.trans hfile)
  | cons newest older =>
    refine .inr ⟨newest, List.mem_cons_self .., ?_⟩
    exact SettingsFile.document.inj (h.1.symm.trans hfile)

/-- What is no document was there at first. -/
theorem unreadable (h : ReplacementChain initial replaced file) {reason : String}
    (hfile : file = .unreadable reason) : initial = .unreadable reason := by
  cases replaced with
  | nil => exact h.symm.trans hfile
  | cons newest older => exact nomatch h.1.symm.trans hfile

end ReplacementChain

/-! ### The protocol -/

/-- What call `t` may assume of the others. -/
structure SettingsRely (t : ℕ) (fs fs' : SettingsFs) : Prop where
  kept : fs.replaced ⊆ fs'.replaced
  own : ∀ r ∈ fs'.replaced, r.call = t → r ∈ fs.replaced

/-- What call `t` guarantees. -/
structure SettingsGuar (t : ℕ) (fs fs' : SettingsFs) : Prop where
  kept : fs.replaced ⊆ fs'.replaced
  others : ∀ r ∈ fs'.replaced, r.call ≠ t → r ∈ fs.replaced

/-- The invariant of the updates from `initial`: identities below `n` have replaced the file. -/
structure SettingsInv (initial : SettingsFile) (n : ℕ) (fs : SettingsFs) : Prop where
  chain : ReplacementChain initial fs.replaced fs.file
  below : ∀ r ∈ fs.replaced, r.call < n

/-- The agreement of the updates. -/
def settingsProtocol (initial : SettingsFile) :
    Protocol SettingsStep SettingsFs SettingsCall ℕ where
  inv := SettingsInv initial
  rely _ t := SettingsRely t
  guar _ t _ := SettingsGuar t
  ok p t l fs := renamesCurrent p t l fs = true
  pre _ _ _ _ := False

theorem SettingsRely.refl (t : ℕ) (fs : SettingsFs) : SettingsRely t fs fs :=
  ⟨List.Subset.refl _, fun _ hr _ ↦ hr⟩

theorem SettingsRely.trans {t : ℕ} {a b c : SettingsFs} (hab : SettingsRely t a b)
    (hbc : SettingsRely t b c) : SettingsRely t a c where
  kept := List.Subset.trans hab.kept hbc.kept
  own r hr ht := hab.own r (hbc.own r hr ht) ht

theorem SettingsGuar.refl (t : ℕ) (fs : SettingsFs) : SettingsGuar t fs fs :=
  ⟨List.Subset.refl _, fun _ hr _ ↦ hr⟩

theorem SettingsGuar.rely {t t' : ℕ} {fs fs' : SettingsFs} (h : SettingsGuar t fs fs')
    (hne : t ≠ t') : SettingsRely t' fs fs' where
  kept := h.kept
  own r hr ht := h.others r hr fun heq ↦ hne (heq.symm.trans ht)

/-! ### An update -/

section Update

variable {initial : SettingsFile} {p t : ℕ} {fs : SettingsFs} {settings : ConsoleSettings}
  {expected : Int}

/-- The call has replaced nothing. -/
def Untouched (t : ℕ) (fs : SettingsFs) : Prop := ∀ r ∈ fs.replaced, r.call ≠ t

theorem Untouched.of_rely {fs' : SettingsFs} (h : Untouched t fs) (hr : SettingsRely t fs fs') :
    Untouched t fs' := fun r hmem ht ↦ h r (hr.own r hmem ht) ht

/-- What is decided about a document. -/
theorem planUpdate_cases (settings : ConsoleSettings) (expected : Int)
    (current : Option ConsoleSettingsDocument) (now : Timestamp) :
    (∃ actual : ℕ, (actual : Int) ≠ expected ∧
        planUpdate settings expected current now = .error (.revisionConflict expected actual)) ∨
      (∃ document, current = some document ∧ document.settings = settings ∧
        document.revision = expected ∧
        planUpdate settings expected current now = .ok (.keep document)) ∨
      (∃ actual document, (SettingsFile.of current).revision? = some actual ∧ expected = actual ∧
        document.settings = settings ∧ document.revision = expected + 1 ∧
        planUpdate settings expected current now = .ok (.replace current document)) ∨
      ¬ expected < maxSafeInteger ∧ ∃ error, planUpdate settings expected current now = .error error := by
  have hrevision : (SettingsFile.of current).revision? = some (current.elim 0 (·.revision)) := by
    cases current with
    | none => rfl
    | some document => rfl
  by_cases hstale : ((current.elim 0 (·.revision) : ℕ) : Int) ≠ expected
  · exact .inl ⟨_, hstale, if_pos hstale⟩
  right
  have hactual : ((current.elim 0 (·.revision) : ℕ) : Int) = expected := not_not.1 hstale
  rcases hsame : current.filter (·.settings = settings) with - | document
  · right
    have hplan : planUpdate settings expected current now =
        (nextDocument settings (current.elim 0 (·.revision)) now).map (.replace current) := by
      simp only [planUpdate, if_neg hstale, hsame]
    by_cases hmax : current.elim 0 (·.revision) + 1 ≤ maxSafeInteger
    · left
      refine ⟨_, ⟨current.elim 0 (·.revision) + 1, settings, now⟩, hrevision, hactual.symm, rfl,
        ?_, ?_⟩
      · rw [← hactual]
        rfl
      · rw [hplan, nextDocument, if_pos hmax]
        rfl
    · right
      refine ⟨by omega, .schema "revision" "too big", ?_⟩
      rw [hplan, nextDocument, if_neg hmax]
      rfl
  · left
    obtain ⟨hcurrent, hsettings⟩ := Option.filter_eq_some_iff.1 hsame
    refine ⟨document, hcurrent, by simpa using hsettings, ?_, ?_⟩
    · rw [← hactual, hcurrent]
      rfl
    · simp only [planUpdate, if_neg hstale, hsame]

/-- Steps on the staging file. -/
theorem safe_stage {A B : Type} {Q : Except SettingsError B → SettingsFs → Prop}
    {l : SettingsStep} {f : SettingsFs → Except SettingsError A} {k : A → SettingsProg B}
    (h : ∀ n s, t < n → SettingsInv initial n s → SettingsRely t fs s →
      (∀ a, f s = .ok a → (settingsProtocol initial).Safe p t Q (k a) s) ∧
        ∀ e, f s = .error e → Q (.error e) s) :
    (settingsProtocol initial).Safe p t Q ((Prog.read l f).bind k) fs :=
  safe_read_bind (fun _ ↦ SettingsGuar.refl t) fun s n ht hinv hrely _ ↦ h n s ht hinv hrely

/-- Renaming over the document that was read. -/
theorem rename_spec {n actual : ℕ} {seen : Option ConsoleSettingsDocument}
    {document : ConsoleSettingsDocument} (ht : t < n) (hinv : SettingsInv initial n fs)
    (hfile : fs.file = .of seen) (hactual : (SettingsFile.of seen).revision? = some actual)
    (hexpected : expected = actual) (hnext : (document.revision : Int) = expected + 1) :
    SettingsInv initial n (fs.rename t expected document) ∧
      SettingsGuar t fs (fs.rename t expected document) := by
  refine ⟨⟨⟨rfl, hnext, fs.file, actual, hinv.chain, hfile ▸ hactual, hexpected⟩, fun r hr ↦ ?_⟩,
    fun r hr ↦ List.mem_cons_of_mem _ hr, fun r hr hne ↦ ?_⟩
  · rcases List.mem_cons.1 hr with rfl | hr
    · exact ht
    · exact hinv.below r hr
  · rcases List.mem_cons.1 hr with rfl | hr
    · exact absurd rfl hne
    · exact hr

/-- Writing a document over the one that was read. -/
theorem safe_writeSettings {actual : ℕ} {seen : Option ConsoleSettingsDocument}
    {document : ConsoleSettingsDocument}
    (hactual : (SettingsFile.of seen).revision? = some actual) (hexpected : expected = actual)
    (hnext : (document.revision : Int) = expected + 1) (h : Untouched t fs) :
    (settingsProtocol initial).Safe p t
      (fun r s ↦ r = .ok () ∧ ⟨t, expected, document⟩ ∈ s.replaced ∧
        ∀ r ∈ s.replaced, r.call = t → r.document = document)
      (writeSettings t expected seen document) fs := by
  unfold writeSettings
  simp only [bind_eq]
  refine safe_stage fun _ s₁ _ _ hr₁ ↦ ⟨fun _ _ ↦ ?_, nofun⟩
  refine safe_stage fun _ s₂ _ _ hr₂ ↦ ⟨fun _ _ ↦ ?_, nofun⟩
  refine safe_stage fun _ s₃ _ _ hr₃ ↦ ⟨fun _ _ ↦ ?_, nofun⟩
  refine safe_stage fun _ s₄ _ _ hr₄ ↦ ⟨fun _ _ ↦ ?_, nofun⟩
  refine safe_stage fun _ s₅ _ _ hr₅ ↦ ⟨fun _ _ ↦ ?_, nofun⟩
  intro s n ht hinv hr _ hok
  have huntouched : Untouched t s :=
    (((((h.of_rely hr₁).of_rely hr₂).of_rely hr₃).of_rely hr₄).of_rely hr₅).of_rely hr
  have hfile : s.file = .of seen := by simpa [settingsProtocol, renamesCurrent] using hok
  obtain ⟨hinv', hguar⟩ := rename_spec ht hinv hfile hactual hexpected hnext
  refine ⟨hinv', hguar, nofun, rfl, List.mem_cons_self .., fun r hmem hcall ↦ ?_⟩
  rcases List.mem_cons.1 hmem with rfl | hmem
  · rfl
  · exact absurd hcall (huntouched r hmem)

/-- An update ends as it may. -/
theorem safe_updateSettings (h : Untouched t fs) :
    (settingsProtocol initial).Safe p t
      (fun r s ↦ UpdateAnswer initial s t settings expected (r.map some))
      (updateSettings t settings expected) fs := by
  unfold updateSettings
  rcases hparse : parseConsoleSettings settings with error | ⟨⟩
  · exact .refused h fun hok ↦ nomatch hparse.symm.trans hok
  change (settingsProtocol initial).Safe p t _ ((Prog.read .readFile _).bind _) fs
  refine safe_stage fun n s _ hinv hr ↦ ?_
  have huntouched : Untouched t s := h.of_rely hr
  rcases hread : s.file.read with error | current
  · -- only the first file can be unreadable
    refine ⟨nofun, fun e he ↦ .refused huntouched fun _ hreadable _ ↦ ?_⟩
    rcases hfile : s.file with - | stored | reason
    · exact nomatch hfile ▸ hread
    · exact nomatch hfile ▸ hread
    · exact absurd (hinv.chain.unreadable hfile) (hreadable reason)
  · have hfile : s.file = .of current := by
      rcases hfile : s.file with - | stored | reason
      · rw [hfile] at hread
        exact Except.ok.inj hread ▸ rfl
      · rw [hfile] at hread
        exact Except.ok.inj hread ▸ rfl
      · exact nomatch hfile ▸ hread
    rcases planUpdate_cases settings expected current s.now with ⟨actual, hne, hplan⟩ |
      ⟨document, rfl, hsettings, hrevision, hplan⟩ |
      ⟨actual, document, hactual, hexpected, hsettings, hnext, hplan⟩ | ⟨hmax, error, hplan⟩
    · refine ⟨fun a ha ↦ (nomatch hplan.symm.trans ha), fun e he ↦ ?_⟩
      obtain rfl := Except.error.inj (hplan.symm.trans he)
      exact .refused huntouched fun _ _ _ ↦ ⟨actual, hne, rfl⟩
    · refine ⟨fun a ha ↦ ?_, fun e he ↦ nomatch hplan.symm.trans he⟩
      obtain rfl := Except.ok.inj (hplan.symm.trans ha)
      exact .unchanged huntouched (hinv.chain.stored hfile) hsettings hrevision
    · refine ⟨fun a ha ↦ ?_, fun e he ↦ nomatch hplan.symm.trans he⟩
      obtain rfl := Except.ok.inj (hplan.symm.trans ha)
      refine (safe_writeSettings hactual hexpected hnext huntouched).bind (fun _ s' hs' ↦ ?_)
        fun e s' hs' ↦ nomatch hs'.1
      exact .replaced hs'.2.1 hs'.2.2 hsettings hnext
    · refine ⟨fun a ha ↦ (nomatch hplan.symm.trans ha), fun e he ↦ ?_⟩
      exact .refused huntouched fun _ _ hlt ↦ absurd hlt hmax

/-- How an update ended stays true. -/
theorem UpdateAnswer.of_rely {fs' : SettingsFs}
    {result : Except SettingsError (Option ConsoleSettingsDocument)}
    (h : UpdateAnswer initial fs t settings expected result) (hr : SettingsRely t fs fs') :
    UpdateAnswer initial fs' t settings expected result := by
  cases h with
  | replaced hmem honly hsettings hnext =>
    exact .replaced (hr.kept hmem) (fun r hr' ht ↦ honly r (hr.own r hr' ht) ht) hsettings hnext
  | unchanged huntouched hstored hsettings hrevision =>
    refine .unchanged (Untouched.of_rely huntouched hr) ?_ hsettings hrevision
    rcases hstored with hinitial | ⟨r, hmem, hdocument⟩
    · exact .inl hinitial
    · exact .inr ⟨r, hr.kept hmem, hdocument⟩
  | refused huntouched hconflict => exact .refused (Untouched.of_rely huntouched hr) hconflict

end Update

/-- The updates keep the protocol. -/
theorem settingsProtocol_sound (initial : SettingsFile) :
    (settingsProtocol initial).Sound settingsSystem fun _ _ _ ↦ True where
  inv_mono hle h := ⟨h.chain, fun r hr ↦ Nat.lt_of_lt_of_le (h.below r hr) hle⟩
  rely_refl := SettingsRely.refl _ _
  rely_trans := SettingsRely.trans
  guar_rely hne _ _ _ h := h.rely hne
  post_stable _ _ _ _ _ _ _ := trivial
  call {p t k fs} hinv _ := by
    match k with
    | .update settings expected =>
      have huntouched : Untouched t fs := fun r hr ↦ Nat.ne_of_lt (hinv.below r hr)
      refine (safe_updateSettings huntouched).bind (fun _ _ _ ↦ trivial) fun _ _ _ ↦ trivial
    | .wait =>
      intro s n _ hinv _ _ _
      exact ⟨⟨hinv.chain, hinv.below⟩, ⟨List.Subset.refl _, fun _ hr _ ↦ hr⟩, nofun, trivial⟩
  fork _ _ h := h.elim
  crash_inv h := h
  crash_rely _ _ := SettingsRely.refl _ _

/-- **Compare and swap** on the settings, in every run in which a rename finds the document its
update read. -/
theorem settingsCas_of_renamesCurrent (initial : SettingsFile) :
    SettingsCas initial fun p t l fs ↦ renamesCurrent p t l fs = true where
  file cfg h := by
    have hinv : SettingsInv initial 0 ⟨initial, 0, []⟩ := ⟨rfl, nofun⟩
    have hpool := (settingsProtocol_sound initial).pool (pool_start hinv) h
    exact ⟨hpool.inv.chain.produced, fun newer r older heq ↦ hpool.inv.chain.visible heq⟩
  answer a b c p settings expected result ha hcall hbc hresult := by
    have hinv : SettingsInv initial 0 ⟨initial, 0, []⟩ := ⟨rfl, nofun⟩
    have hpool := (settingsProtocol_sound initial).pool (pool_start hinv) ha
    have huntouched : Untouched a.next a.shared :=
      fun r hr ↦ Nat.ne_of_lt (hpool.inv.below r hr)
    have hsafe : (settingsProtocol initial).Safe p a.next
        (fun r s ↦ UpdateAnswer initial s a.next settings expected r)
        (settingsSystem.body p a.next (.update settings expected)) a.shared := by
      refine (safe_updateSettings huntouched).bind (fun document s h ↦ h) fun e s h ↦ h
    exact (settingsProtocol_sound initial).result_of_call
      (fun _ _ _ _ _ hr h ↦ h.of_rely hr) hpool hsafe hcall hbc hresult

/-! ### Two updates of one revision -/

/-- Settings with a port. -/
def settingsOn (port : Int) : ConsoleSettings := { host := "127.0.0.1", port }

/-- Two updates read that there is no document; then both rename. -/
def racingUpdates : List (Event SettingsCall ℕ) :=
  [ [.call 0 (.update (settingsOn 1) 0), .call 0 (.update (settingsOn 2) 0), .run 0, .run 1],
    List.replicate 6 (.run 0), List.replicate 6 (.run 1) ].flatten

/-- **Racing updates**: both succeed, and both produce revision 1. -/
theorem not_settingsCas_racingUpdates :
    ¬ ∀ initial : SettingsFile, SettingsCas initial System.unrestricted := by
  intro h
  have hrun : (settingsSystem.advanceAll (fun _ _ _ _ ↦ true) (.start ⟨.missing, 0, []⟩)
      racingUpdates).map (fun cfg : SettingsConfig ↦ cfg.shared.replaced.map (·.document.revision)) =
        some [1, 1] := by
    decide +kernel
  obtain ⟨cfg, hcfg, hreplaced⟩ := Option.map_eq_some_iff.1 hrun
  have hreach : settingsSystem.Reaches System.unrestricted (.start ⟨.missing, 0, []⟩) cfg :=
    (System.reaches_of_advanceAll hcfg).mono fun _ _ _ _ _ ↦ trivial
  have hproduced := ((h .missing).file cfg hreach).produced
  have hdistinct : (cfg.shared.replaced.map (·.document.revision)).Nodup :=
    List.pairwise_map.2 hproduced
  rw [hreplaced] at hdistinct
  exact absurd hdistinct (by decide)

end CodeConductor
