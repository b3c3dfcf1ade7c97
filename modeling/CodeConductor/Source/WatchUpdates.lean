import CodeConductor.Source.Watches

/-!
# Updates of a watch

`WatchesKept` says that the two kinds of writers do not undo each other: the flag of a stored watch
is the one its latest `set_contract_watch` wrote, and its last run the one its latest scan wrote. It
holds in the runs in which a writer finds, in the fields it does not change, what it had read.

The code does not see to that. A poller holds the record it listed while it compiles and enqueues,
and then writes it back as a whole, with the flag as it was.
-/

namespace CodeConductor

open Async Async.Prog Async.Protocol

/-- A configuration of the pollers and tools. -/
abbrev WatchConfig := Config WatchStep WatchFs WatchCall WatchError Unit ℕ

/-- The writers of a watch do not undo each other. -/
structure WatchesKept (fs : WatchFs) : Prop where
  /-- The flag is the latest one set. -/
  flag : ∀ id watch, fs.records id = some watch → fs.latestSet id = some watch.enabled
  /-- The last run is the latest one recorded. -/
  run : ∀ id watch, fs.records id = some watch → fs.latestRun id = some watch.lastRun

/-- A rename finds, in the fields its writer does not change, what the writer had read. -/
def keepsOthers : ℕ → ℕ → WatchStep → WatchFs → Bool
  | _, _, .rename before (.enabled _), fs =>
    (fs.records before.watchId).any fun watch ↦ watch.lastRun = before.lastRun
  | _, _, .rename before _, fs =>
    (fs.records before.watchId).any fun watch ↦ watch.enabled = before.enabled
  | _, _, _, _ => true

/-- No update is lost, in any run from the given watches whose steps meet `ok`. -/
def WatchUpdatesKept (ids : List String) (records : String → Option SourceWatch)
    (ok : ℕ → ℕ → WatchStep → WatchFs → Prop) : Prop :=
  ∀ cfg : WatchConfig, watchSystem.Reaches ok (.start (.start ids records)) cfg →
    WatchesKept cfg.shared

/-! ### One rename -/

theorem WatchesKept.start (ids : List String) (records : String → Option SourceWatch) :
    WatchesKept (.start ids records) where
  flag id watch h := by
    have hrecord : records id = some watch := h
    show (records id).map (·.enabled) = some watch.enabled
    rw [hrecord, Option.map_some]
  run id watch h := by
    have hrecord : records id = some watch := h
    show (records id).map (·.lastRun) = some watch.lastRun
    rw [hrecord, Option.map_some]

@[simp] theorem WatchPatch.apply_watchId (patch : WatchPatch) (watch : SourceWatch)
    (now : Timestamp) : (patch.apply watch now).watchId = watch.watchId := by
  cases patch <;> rfl

theorem WatchFs.rename_records (fs : WatchFs) (patch : WatchPatch) (updated : SourceWatch) :
    (fs.rename patch updated).records =
      Function.update fs.records updated.watchId (some updated) := by
  cases patch <;> rfl

/-- A history at a watch, before and after the watch is renamed. -/
theorem update_history {β : Type} {records : String → Option SourceWatch}
    {history : String → Option β} {field : SourceWatch → β}
    (h : ∀ id watch, records id = some watch → history id = some (field watch)) {id : String}
    {updated : SourceWatch} {value : β} (hvalue : value = field updated) {id' : String}
    {watch : SourceWatch} (hwatch : Function.update records id (some updated) id' = some watch) :
    Function.update history id (some value) id' = some (field watch) := by
  rcases eq_or_ne id' id with rfl | hne
  · rw [Function.update_self] at hwatch ⊢
    rw [hvalue, Option.some.inj hwatch]
  · rw [Function.update_of_ne hne] at hwatch ⊢
    exact h id' watch hwatch

/-- A history of a field that a renamed watch keeps. -/
theorem keep_history {β : Type} {records : String → Option SourceWatch}
    {history : String → Option β} {field : SourceWatch → β}
    (h : ∀ id watch, records id = some watch → history id = some (field watch)) {id : String}
    {stored updated : SourceWatch} (hstored : records id = some stored)
    (hfield : field updated = field stored) {id' : String} {watch : SourceWatch}
    (hwatch : Function.update records id (some updated) id' = some watch) :
    history id' = some (field watch) := by
  have hsame : Function.update history id (some (field updated)) = history := by
    rw [hfield, ← h id stored hstored, Function.update_eq_self]
  rw [← hsame]
  exact update_history h rfl hwatch

/-- A rename that meets the condition keeps both histories. -/
theorem WatchesKept.rename {fs : WatchFs} (h : WatchesKept fs) {p t : ℕ} {before : SourceWatch}
    {patch : WatchPatch} {now : Timestamp}
    (hok : keepsOthers p t (.rename before patch) fs = true) :
    WatchesKept (fs.rename patch (patch.apply before now)) := by
  cases patch with
  | enabled flag =>
    obtain ⟨stored, hstored, hrun⟩ := (Option.any_eq_true _ _).1 hok
    have hsame : before.lastRun = stored.lastRun := by simpa [eq_comm] using hrun
    have hkept : ((WatchPatch.enabled flag).apply before now).lastRun = stored.lastRun := hsame
    exact ⟨fun id watch hw ↦ update_history h.flag rfl hw,
      fun id watch hw ↦ keep_history h.run hstored hkept hw⟩
  | scanned lastScanAt lastError =>
    obtain ⟨stored, hstored, hflag⟩ := (Option.any_eq_true _ _).1 hok
    have hsame : before.enabled = stored.enabled := by simpa [eq_comm] using hflag
    have hkept : ((WatchPatch.scanned lastScanAt lastError).apply before now).enabled =
        stored.enabled := hsame
    exact ⟨fun id watch hw ↦ keep_history h.flag hstored hkept hw,
      fun id watch hw ↦ update_history h.run rfl hw⟩
  | ran lastScanAt lastRevision lastRunId =>
    obtain ⟨stored, hstored, hflag⟩ := (Option.any_eq_true _ _).1 hok
    have hsame : before.enabled = stored.enabled := by simpa [eq_comm] using hflag
    have hkept : ((WatchPatch.ran lastScanAt lastRevision lastRunId).apply before now).enabled =
        stored.enabled := hsame
    exact ⟨fun id watch hw ↦ keep_history h.flag hstored hkept hw,
      fun id watch hw ↦ update_history h.run rfl hw⟩

/-! ### The programs -/

/-- The agreement of the pollers and tools. -/
def watchProtocol : Protocol WatchStep WatchFs WatchCall ℕ where
  inv _ := WatchesKept
  rely _ _ _ _ := True
  guar _ _ _ _ _ := True
  ok p t l fs := keepsOthers p t l fs = true
  pre _ _ _ _ := False

section Programs

variable {p t : ℕ}

theorem keeps_look {A : Type} (l : WatchStep) (f : WatchFs → Except WatchError A) :
    watchProtocol.Keeps p t (Prog.read l f : WatchProg A) :=
  fun _ _ _ _ hinv _ _ _ ↦ ⟨hinv, trivial, nofun, trivial⟩

theorem keeps_readWatch (watchId : String) : watchProtocol.Keeps p t (readWatch watchId) := by
  unfold readWatch
  exact (keeps_ret _).bind fun _ ↦ keeps_look _ _

theorem keeps_readWatches (ids : List String) : watchProtocol.Keeps p t (readWatches ids) := by
  induction ids with
  | nil => exact keeps_ret _
  | cons id rest ih =>
    exact (keeps_readWatch id).bind fun _ ↦ ih.bind fun _ ↦ keeps_ret _

/-- The one step of an update that writes is the rename. -/
theorem keeps_updateWatch (watch : SourceWatch) (patch : WatchPatch) :
    watchProtocol.Keeps p t (updateWatch watch patch) := by
  unfold updateWatch
  refine (keeps_look _ _).bind fun now ↦ (keeps_ret _).bind fun _ ↦ ?_
  refine (keeps_look _ _).bind fun _ ↦ (keeps_look _ _).bind fun _ ↦ ?_
  refine (keeps_look _ _).bind fun _ ↦ (keeps_look _ _).bind fun _ ↦ ?_
  refine (keeps_look _ _).bind fun _ ↦ fun s ↦ ?_
  exact safe_modify_bind fun s' _ _ hinv _ hok ↦ ⟨hinv.rename hok, trivial, trivial⟩

theorem keeps_pollWatch (sources : ContractSources) (watch : SourceWatch) :
    watchProtocol.Keeps p t (pollWatch sources watch) := by
  unfold pollWatch scanWatch
  refine .ite ((keeps_look _ _).bind fun lastScanAt ↦ .catching ?_ fun error ↦ ?_) (keeps_ret _)
  · refine (keeps_look _ _).bind fun revision ↦ .ite ?_ ?_
    · exact (keeps_updateWatch _ _).bind fun _ ↦ keeps_ret _
    · refine (keeps_look _ _).bind fun run ↦ ?_
      exact (keeps_updateWatch _ _).bind fun _ ↦ keeps_ret _
  · exact (keeps_updateWatch _ _).bind fun _ ↦ keeps_ret _

theorem keeps_pollWatches (sources : ContractSources) (watches : List SourceWatch) :
    watchProtocol.Keeps p t (pollWatches sources watches) := by
  induction watches with
  | nil => exact keeps_ret _
  | cons watch rest ih => exact (keeps_pollWatch sources watch).bind fun _ ↦ ih

end Programs

/-- The pollers and tools keep the protocol. -/
theorem watchProtocol_sound : watchProtocol.Sound watchSystem fun _ _ _ ↦ True where
  inv_mono _ h := h
  rely_refl := trivial
  rely_trans _ _ := trivial
  guar_rely _ _ _ _ _ := trivial
  post_stable _ _ _ _ _ _ _ := trivial
  call {p t k fs} _ _ := by
    match k with
    | .pollAll sources order =>
      have hlist : watchProtocol.Keeps p t (listWatches order) :=
        (keeps_look _ _).bind fun _ ↦ (keeps_readWatches _).bind fun _ ↦ keeps_ret _
      exact (hlist.bind fun _ ↦ keeps_pollWatches sources _) fs
    | .setContractWatch watchId enabled =>
      have hset : watchProtocol.Keeps p t (setContractWatch watchId enabled) :=
        (keeps_readWatch watchId).bind fun _ ↦ (keeps_updateWatch _ _).bind fun _ ↦ keeps_ret _
      exact hset fs
    | .wait =>
      intro s n _ hinv _ _ _
      exact ⟨⟨hinv.flag, hinv.run⟩, trivial, nofun, trivial⟩
  fork _ _ h := h.elim
  crash_inv h := h
  crash_rely _ _ := trivial

/-- **No update is lost** in the runs in which a writer finds, in the fields it does not change,
what it had read. -/
theorem watchUpdatesKept_of_keepsOthers (ids : List String)
    (records : String → Option SourceWatch) :
    WatchUpdatesKept ids records fun p t l fs ↦ keepsOthers p t l fs = true :=
  fun _ h ↦ (watchProtocol_sound.pool (pool_start (WatchesKept.start ids records)) h).inv

/-! ### A watch disabled during a scan -/

/-- An enabled watch of the repository `/r`. -/
def enabledWatch : SourceWatch where
  watchId := "w"
  enabled := true
  scan := ⟨"/r", "HEAD", ["a"], none, [".ts"], 1⟩
  createdAt := 0
  updatedAt := 0

/-- Sources whose compilation fails. -/
def failingSources : ContractSources where
  compile _ := .error "no repository"
  compileAndEnqueue _ := .error "no repository"

/-- The poller has listed the watch when it is disabled; then its scan ends. -/
def disabledDuringScan : List (Event WatchCall ℕ) :=
  [ [.call 0 (.pollAll failingSources []), .run 0, .run 0, .run 0,
      .call 0 (.setContractWatch "w" false)],
    List.replicate 8 (.run 1), List.replicate 8 (.run 0) ].flatten

/-- **A lost update**: the watch was disabled and is enabled. -/
theorem not_watchUpdatesKept_disabledDuringScan :
    ¬ ∀ (ids : List String) (records : String → Option SourceWatch),
      WatchUpdatesKept ids records System.unrestricted := by
  intro h
  have hrun : (watchSystem.advanceAll (fun _ _ _ _ ↦ true)
      (.start (.start ["w"] (Function.update (fun _ ↦ none) "w" (some enabledWatch))))
      disabledDuringScan).map (fun cfg : WatchConfig ↦
        ((cfg.shared.records "w").map (·.enabled), cfg.shared.latestSet "w")) =
        some (some true, some false) := by
    decide +kernel
  obtain ⟨cfg, hcfg, hstate⟩ := Option.map_eq_some_iff.1 hrun
  obtain ⟨hrecord, hlatest⟩ := Prod.mk.inj hstate
  obtain ⟨watch, hwatch, henabled⟩ := Option.map_eq_some_iff.1 hrecord
  have hreach : watchSystem.Reaches System.unrestricted (.start (.start ["w"] _)) cfg :=
    (System.reaches_of_advanceAll hcfg).mono fun _ _ _ _ _ ↦ trivial
  have hflag := (h _ _ cfg hreach).flag "w" watch hwatch
  rw [hlatest, henabled] at hflag
  exact absurd hflag (by decide)

end CodeConductor
