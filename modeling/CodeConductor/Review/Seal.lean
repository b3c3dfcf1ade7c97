import CodeConductor.Review.Packet

/-!
# The seal is exact

A packet that was built from a state validates against a later one exactly when that is acceptable by
itself, has the same records, the same content in every bound file, and the same entries in the attempt
directory (`reviewSeal_exact`). A packet that was edited without a new seal validates against
nothing. All of this rests on a hash without collisions.
-/

namespace CodeConductor

/-! ### What is compared -/

section

variable (tools : ReviewTools) (files : ReviewFiles)

/-- The files a packet for the state binds. -/
def evidenceFiles (state : ReviewEvidenceState) : List StorePath :=
  (evidenceTargets state).filterMap fun target ↦
    (target.1.filter (· ≠ "")).map files.resolve

/-- The values are canonically equal. -/
def ReviewTools.Same (value other : JsonValue) : Prop := tools.canonical value = tools.canonical other

/-- The later state is acceptable, and its evidence is that of the earlier one. -/
structure SameEvidence (state : ReviewEvidenceState) (files' : ReviewFiles)
    (state' : ReviewEvidenceState) : Prop where
  accepted : assertReviewEvidenceState tools files' state' = .ok ()
  contract : tools.Same state.contract.value state'.contract.value
  manifest : tools.Same state.manifest.value state'.manifest.value
  cleanup : tools.Same state.cleanup.value state'.cleanup.value
  verification : tools.Same state.verification.value state'.verification.value
  changedPaths : tools.Same (.strings state.changedPaths) (.strings state'.changedPaths)
  bound : ∀ path ∈ evidenceFiles files state, ∃ content,
    files.stat path = some (.file content) ∧ files'.stat path = some (.file content)
  inventory : attemptEntries tools files' state'.attemptDirectory =
    attemptEntries tools files state.attemptDirectory

/-- The packet is another one, with the seal or without it, and the seal was not made for it. -/
def EditedUnsealed (packet edited : ReviewPacket) : Prop :=
  let same := tools.Same packet.toUnsignedReviewPacket.value edited.toUnsignedReviewPacket.value
  (edited.sealSha256 = packet.sealSha256 ∧ ¬same) ∨ (same ∧ edited.sealSha256 ≠ packet.sealSha256)

end

/-- **Review seal is exact**, for a hash without collisions. -/
def ReviewSealExact (tools : ReviewTools) : Prop :=
  Function.Injective tools.sha256 → ∀ files state now packet,
    buildReviewPacket tools files state now = .ok packet →
    (∀ files' state', validateReviewPacket tools files' packet state' = .ok () ↔
      SameEvidence tools files state files' state') ∧
    ∀ edited, EditedUnsealed tools packet edited →
      ∀ files' state', ∃ error, validateReviewPacket tools files' edited state' = .error error

/-! ### Checks -/

theorem demand_eq_ok {condition : Prop} [Decidable condition] {kind : ReviewErrorKind}
    {message : String} : demand condition kind message = .ok () ↔ condition :=
  throwUnless_eq_ok

/-! ### Bindings -/

section

variable (tools : ReviewTools) (files : ReviewFiles)

/-- Adding a target requests its file, and keeps what was requested. -/
theorem mem_keys_addEvidence (requested : List (StorePath × List EvidencePurpose))
    (target : Option String × EvidencePurpose) (path : StorePath) :
    path ∈ (addEvidence files requested target).map Prod.fst ↔
      path ∈ requested.map Prod.fst ∨
        path ∈ (target.1.filter (· ≠ "")).map files.resolve := by
  unfold addEvidence
  cases htext : target.1.filter (· ≠ "") with
  | none => simp
  | some text =>
    simp only [Option.map_some, Option.mem_def, Option.some.injEq]
    split
    · rename_i hmem
      have hkeys : (requested.map fun entry ↦
          if entry.1 = files.resolve text ∧ target.2 ∉ entry.2 then
            (entry.1, entry.2 ++ [target.2]) else entry).map Prod.fst = requested.map Prod.fst := by
        rw [List.map_map]
        refine List.map_congr_left fun entry _ ↦ ?_
        rw [Function.comp_apply]
        split <;> rfl
      rw [hkeys]
      exact ⟨.inl, fun h ↦ h.elim id fun heq ↦ heq ▸ hmem⟩
    · rw [List.map_append, List.mem_append, List.map_singleton, List.mem_singleton, eq_comm]

theorem mem_keys_foldl_addEvidence (targets : List (Option String × EvidencePurpose))
    (requested : List (StorePath × List EvidencePurpose)) (path : StorePath) :
    path ∈ (targets.foldl (addEvidence files) requested).map Prod.fst ↔
      path ∈ requested.map Prod.fst ∨ path ∈ targets.filterMap fun target ↦
        (target.1.filter (· ≠ "")).map files.resolve := by
  induction targets generalizing requested with
  | nil => simp
  | cons target rest ih =>
    rw [List.foldl_cons, ih, mem_keys_addEvidence, List.filterMap_cons, or_assoc]
    cases (target.1.filter (· ≠ "")).map files.resolve with
    | none => simp
    | some other => simp [eq_comm]

/-- A binding is that of a file with the content. -/
def Binds (binding : EvidenceBinding) (content : List UInt8) : Prop :=
  binding.size = content.length ∧ binding.sha256 = tools.sha256 content

theorem bindEvidence_eq_ok {entry : StorePath × List EvidencePurpose} {binding : EvidenceBinding}
    (h : bindEvidence tools files entry = .ok binding) :
    binding.path = entry.1 ∧ ∃ content, files.stat entry.1 = some (.file content) ∧
      Binds tools binding content := by
  unfold bindEvidence at h
  split at h
  · exact nomatch h
  · exact nomatch h
  · rename_i content hcontent
    obtain rfl := Except.ok.inj h
    exact ⟨rfl, content, hcontent, rfl, rfl⟩

/-- The bindings are those of the files of the evidence. -/
theorem collectEvidenceBindings_eq_ok {state : ReviewEvidenceState}
    {bindings : List EvidenceBinding}
    (h : collectEvidenceBindings tools files state = .ok bindings) :
    (∀ path ∈ evidenceFiles files state, ∃ binding ∈ bindings, binding.path = path) ∧
      ∀ binding ∈ bindings, binding.path ∈ evidenceFiles files state ∧
        ∃ content, files.stat binding.path = some (.file content) ∧
          Binds tools binding content := by
  obtain ⟨-, hmap⟩ := check_eq_ok.1 h
  obtain ⟨hentries, hbindings⟩ := mapM_eq_ok hmap
  have hkeys (path : StorePath) : path ∈ evidenceFiles files state ↔
      path ∈ ((evidenceTargets state).foldl (addEvidence files) []).map Prod.fst := by
    rw [mem_keys_foldl_addEvidence]
    simp [evidenceFiles]
  refine ⟨fun path hpath ↦ ?_, fun binding hbinding ↦ ?_⟩
  · obtain ⟨entry, hentry, rfl⟩ := List.mem_map.1 ((hkeys path).1 hpath)
    obtain ⟨binding, hmem, hbind⟩ := hentries entry (List.mem_mergeSort.2 hentry)
    exact ⟨binding, hmem, (bindEvidence_eq_ok tools files hbind).1⟩
  · obtain ⟨entry, hentry, hbind⟩ := hbindings binding hbinding
    obtain ⟨hpath, content, hcontent, hbinds⟩ := bindEvidence_eq_ok tools files hbind
    rw [hpath]
    exact ⟨(hkeys entry.1).2 (List.mem_map_of_mem (List.mem_mergeSort.1 hentry)), content,
      hcontent, hbinds⟩

variable {tools files}

/-- A binding validates exactly where its file has the content it was made for. -/
theorem validateBinding_eq_ok (hhash : Function.Injective tools.sha256) {binding : EvidenceBinding}
    {content : List UInt8} (hbinds : Binds tools binding content) :
    validateBinding tools files binding = .ok () ↔
      files.stat binding.path = some (.file content) := by
  unfold validateBinding
  split
  · rename_i hstat
    simp [hstat]
  · rename_i hstat
    simp [hstat]
  · rename_i found hstat
    rw [demand_eq_ok, hbinds.1, hbinds.2, hstat, Option.some.injEq,
      FileStat.file.injEq]
    constructor
    · intro h
      exact hhash h.2
    · rintro rfl
      exact ⟨rfl, rfl⟩

/-! ### Inventories -/

/-- **Inventories of one text** were made from the same entries. -/
theorem entries_eq_of_inventory (hhash : Function.Injective tools.sha256)
    {found found' : List FoundEntry}
    (h : tools.Same (inventoryValue (found.map (inventoryEntry tools)))
      (inventoryValue (found'.map (inventoryEntry tools)))) : found = found' := by
  have hitems := items_of_canonicalJson_eq tools.localeLe h
  rw [List.map_map, List.map_map, List.map_map, List.map_map] at hitems
  refine List.map_injective_iff.2 (fun entry entry' htext ↦ ?_) hitems
  obtain ⟨path, content⟩ := entry
  obtain ⟨path', content'⟩ := entry'
  have hstring := JsonObject.string_eq tools.localeLe htext
  cases content with
  | none =>
    cases content' with
    | none =>
      obtain rfl : path = path' := Option.some.inj (hstring "path")
      rfl
    | some content' => exact absurd (Option.some.inj (hstring "kind")) (by decide)
  | some content =>
    cases content' with
    | none => exact absurd (Option.some.inj (hstring "kind")) (by decide)
    | some content' =>
      obtain rfl : path = path' := Option.some.inj (hstring "path")
      obtain rfl := hhash (Option.some.inj (hstring "sha256"))
      rfl

/-! ### The seal -/

/-- Values with one fingerprint are canonically equal. -/
theorem ReviewTools.same_of_fingerprint_eq (hhash : Function.Injective tools.sha256)
    {value other : JsonValue} (h : tools.fingerprint value = tools.fingerprint other) :
    tools.Same value other := by
  have hbytes := ByteArray.ext (Array.toList_inj.1 (hhash h))
  exact String.ofList_inj.1 (String.toByteArray_inj.1 hbytes)

theorem required_eq {record other : JsonObject} (h : tools.Same record.value other.value)
    (key : String) : record.required key = other.required key := by
  rw [JsonObject.required, JsonObject.required, JsonObject.string_eq tools.localeLe h]

/-- What a packet that was built consists of. -/
structure BuiltFrom (tools : ReviewTools) (files : ReviewFiles) (state : ReviewEvidenceState)
    (packet : ReviewPacket) : Prop where
  format : tools.packetFormat packet = .ok ()
  intact : tools.fingerprint packet.toUnsignedReviewPacket.value = packet.sealSha256
  jobId : packet.jobId = state.manifest.required "jobId"
  attemptId : packet.attemptId = state.manifest.required "attemptId"
  contract : packet.contract = state.contract
  attempt : packet.attempt = state.manifest
  cleanup : packet.cleanup = state.cleanup
  verification : packet.verification = state.verification
  changedPaths : packet.changedPaths = state.changedPaths
  bindings : collectEvidenceBindings tools files state = .ok packet.bindings
  inventory : collectAttemptInventory tools files state.attemptDirectory =
    .ok packet.attemptInventory
  reviewerContract : packet.reviewerContract = createReviewerContract

theorem buildReviewPacket_eq_ok {state : ReviewEvidenceState} {now : Option String}
    {packet : ReviewPacket} (h : buildReviewPacket tools files state now = .ok packet) :
    BuiltFrom tools files state packet := by
  obtain ⟨-, h⟩ := check_eq_ok.1 h
  obtain ⟨sealedAt, -, h⟩ := bind_eq_ok.1 h
  obtain ⟨bindings, hbindings, h⟩ := bind_eq_ok.1 h
  obtain ⟨inventory, hinventory, h⟩ := bind_eq_ok.1 h
  obtain ⟨hformat, h⟩ := check_eq_ok.1 h
  obtain rfl := Except.ok.inj h
  exact ⟨mapError_eq_ok.1 hformat, rfl, rfl, rfl, rfl, rfl, rfl, rfl, rfl, hbindings, hinventory, rfl⟩

/-- What a packet must pass to be valid. -/
structure Validates (tools : ReviewTools) (files : ReviewFiles) (packet : ReviewPacket)
    (state : ReviewEvidenceState) : Prop where
  format : tools.packetFormat packet = .ok ()
  intact : tools.fingerprint packet.toUnsignedReviewPacket.value = packet.sealSha256
  accepted : assertReviewEvidenceState tools files state = .ok ()
  contract : tools.Same packet.contract.value state.contract.value
  attempt : tools.Same packet.attempt.value state.manifest.value
  cleanup : tools.Same packet.cleanup.value state.cleanup.value
  verification : tools.Same packet.verification.value state.verification.value
  changedPaths : tools.Same (.strings packet.changedPaths) (.strings state.changedPaths)
  reviewerContract : tools.Same packet.reviewerContract.value createReviewerContract.value
  identity : packet.jobId = state.manifest.required "jobId" ∧
    packet.attemptId = state.manifest.required "attemptId"
  bindings : ∀ binding ∈ packet.bindings, validateBinding tools files binding = .ok ()
  inventory : ∃ inventory, collectAttemptInventory tools files state.attemptDirectory =
    .ok inventory ∧ tools.Same (inventoryValue inventory) (inventoryValue packet.attemptInventory)

theorem validateReviewPacket_eq_ok {packet : ReviewPacket} {state : ReviewEvidenceState} :
    validateReviewPacket tools files packet state = .ok () ↔
      Validates tools files packet state := by
  constructor
  · intro h
    obtain ⟨hformat, h⟩ := check_eq_ok.1 h
    obtain ⟨hsealed, h⟩ := check_eq_ok.1 h
    obtain ⟨haccepted, h⟩ := check_eq_ok.1 h
    obtain ⟨hrecords, h⟩ := check_eq_ok.1 h
    obtain ⟨hidentity, h⟩ := check_eq_ok.1 h
    obtain ⟨hbindings, h⟩ := check_eq_ok.1 h
    obtain ⟨inventory, hinventory, h⟩ := bind_eq_ok.1 h
    have hsame := demand_eq_ok.1 h
    have hrecord := fun comparison hmem ↦
      demand_eq_ok.1 (forM_eq_ok.1 hrecords comparison hmem)
    simp only [List.forall_mem_cons] at hrecord
    obtain ⟨hcontract, hattempt, hcleanup, hverification, hchanged, hreviewer, -⟩ := hrecord
    exact {
      format := mapError_eq_ok.1 hformat
      intact := demand_eq_ok.1 hsealed
      accepted := haccepted
      contract := hcontract
      attempt := hattempt
      cleanup := hcleanup
      verification := hverification
      changedPaths := hchanged
      reviewerContract := hreviewer
      identity := demand_eq_ok.1 hidentity
      bindings := forM_eq_ok.1 hbindings
      inventory := ⟨inventory, hinventory, hsame⟩ }
  · intro h
    obtain ⟨inventory, hinventory, hsame⟩ := h.inventory
    refine check_eq_ok.2 ⟨mapError_eq_ok.2 h.format, ?_⟩
    refine check_eq_ok.2 ⟨demand_eq_ok.2 h.intact, ?_⟩
    refine check_eq_ok.2 ⟨h.accepted, ?_⟩
    refine check_eq_ok.2 ⟨forM_eq_ok.2 ?_, ?_⟩
    · have hrecord {name : String} {value other : JsonValue} (hsame : tools.Same value other) :
          demand (tools.canonical value = tools.canonical other) .corrupt
            ("Sealed " ++ name ++ " changed for " ++ packet.attemptId) = .ok () :=
        demand_eq_ok.2 hsame
      exact List.forall_mem_cons.2 ⟨hrecord h.contract, List.forall_mem_cons.2 ⟨hrecord h.attempt,
        List.forall_mem_cons.2 ⟨hrecord h.cleanup, List.forall_mem_cons.2 ⟨hrecord h.verification,
          List.forall_mem_cons.2 ⟨hrecord h.changedPaths,
            List.forall_mem_cons.2 ⟨hrecord h.reviewerContract, nofun⟩⟩⟩⟩⟩⟩
    · refine check_eq_ok.2 ⟨demand_eq_ok.2 h.identity, ?_⟩
      refine check_eq_ok.2 ⟨forM_eq_ok.2 h.bindings, ?_⟩
      exact bind_eq_ok.2 ⟨inventory, hinventory, demand_eq_ok.2 hsame⟩

variable {state : ReviewEvidenceState} {packet : ReviewPacket}

/-- The bindings of a packet validate exactly where every file of the evidence is as it was. -/
theorem BuiltFrom.bindings_iff (hbuilt : BuiltFrom tools files state packet)
    (hhash : Function.Injective tools.sha256) (files' : ReviewFiles) :
    (∀ binding ∈ packet.bindings, validateBinding tools files' binding = .ok ()) ↔
      ∀ path ∈ evidenceFiles files state, ∃ content,
        files.stat path = some (.file content) ∧ files'.stat path = some (.file content) := by
  obtain ⟨hpaths, hbindings⟩ := collectEvidenceBindings_eq_ok tools files hbuilt.bindings
  constructor
  · intro h path hpath
    obtain ⟨binding, hmem, rfl⟩ := hpaths path hpath
    obtain ⟨-, content, hcontent, hbinds⟩ := hbindings binding hmem
    exact ⟨content, hcontent, (validateBinding_eq_ok hhash hbinds).1 (h binding hmem)⟩
  · intro h binding hmem
    obtain ⟨hpath, content, hcontent, hbinds⟩ := hbindings binding hmem
    obtain ⟨content', hfound, hfound'⟩ := h binding.path hpath
    obtain rfl := FileStat.file.inj (Option.some.inj (hcontent.symm.trans hfound))
    exact (validateBinding_eq_ok hhash hbinds).2 hfound'

/-- The inventory of a packet is that of a later attempt directory exactly where that has the same
entries. -/
theorem BuiltFrom.inventory_iff (hbuilt : BuiltFrom tools files state packet)
    (hhash : Function.Injective tools.sha256) (files' : ReviewFiles) (directory : String) :
    (∃ inventory, collectAttemptInventory tools files' directory = .ok inventory ∧
      tools.Same (inventoryValue inventory) (inventoryValue packet.attemptInventory)) ↔
      attemptEntries tools files' directory =
        attemptEntries tools files state.attemptDirectory := by
  have hsealed := hbuilt.inventory
  unfold collectAttemptInventory at hsealed ⊢
  cases hfound : attemptEntries tools files state.attemptDirectory with
  | error error =>
    rw [hfound] at hsealed
    exact nomatch hsealed
  | ok found =>
    rw [hfound] at hsealed
    have hinventory : found.map (inventoryEntry tools) = packet.attemptInventory :=
      Except.ok.inj hsealed
    rw [← hinventory]
    constructor
    · rintro ⟨inventory, hlater, hsame⟩
      cases hfound' : attemptEntries tools files' directory with
      | error error =>
        rw [hfound'] at hlater
        exact nomatch hlater
      | ok found' =>
        rw [hfound'] at hlater
        obtain rfl : found'.map (inventoryEntry tools) = inventory := Except.ok.inj hlater
        rw [entries_eq_of_inventory hhash hsame]
    · intro h
      rw [h]
      exact ⟨_, rfl, rfl⟩

/-- A packet that was built validates exactly against the same evidence. -/
theorem BuiltFrom.validates_iff (hbuilt : BuiltFrom tools files state packet)
    (hhash : Function.Injective tools.sha256) (files' : ReviewFiles)
    (state' : ReviewEvidenceState) :
    Validates tools files' packet state' ↔ SameEvidence tools files state files' state' := by
  constructor
  · intro h
    exact {
      accepted := h.accepted
      contract := hbuilt.contract ▸ h.contract
      manifest := hbuilt.attempt ▸ h.attempt
      cleanup := hbuilt.cleanup ▸ h.cleanup
      verification := hbuilt.verification ▸ h.verification
      changedPaths := hbuilt.changedPaths ▸ h.changedPaths
      bound := (hbuilt.bindings_iff hhash files').1 h.bindings
      inventory := (hbuilt.inventory_iff hhash files' state'.attemptDirectory).1 h.inventory }
  · intro h
    exact {
      format := hbuilt.format
      intact := hbuilt.intact
      accepted := h.accepted
      contract := hbuilt.contract ▸ h.contract
      attempt := hbuilt.attempt ▸ h.manifest
      cleanup := hbuilt.cleanup ▸ h.cleanup
      verification := hbuilt.verification ▸ h.verification
      changedPaths := hbuilt.changedPaths ▸ h.changedPaths
      reviewerContract := hbuilt.reviewerContract ▸ rfl
      identity := ⟨hbuilt.jobId.trans (required_eq h.manifest "jobId"),
        hbuilt.attemptId.trans (required_eq h.manifest "attemptId")⟩
      bindings := (hbuilt.bindings_iff hhash files').2 h.bound
      inventory := (hbuilt.inventory_iff hhash files' state'.attemptDirectory).2 h.inventory }

/-- A packet with another content or another seal than one that was sealed is not valid. -/
theorem BuiltFrom.not_validates (hbuilt : BuiltFrom tools files state packet)
    (hhash : Function.Injective tools.sha256) {edited : ReviewPacket}
    (hedited : EditedUnsealed tools packet edited) (files' : ReviewFiles)
    (state' : ReviewEvidenceState) : ¬Validates tools files' edited state' := by
  intro h
  rcases hedited with ⟨hseal, hcontent⟩ | ⟨hcontent, hseal⟩
  · have hfingerprint : tools.fingerprint packet.toUnsignedReviewPacket.value =
        tools.fingerprint edited.toUnsignedReviewPacket.value := by
      rw [hbuilt.intact, h.intact, hseal]
    exact hcontent (tools.same_of_fingerprint_eq hhash hfingerprint)
  · refine hseal ?_
    rw [← h.intact, ← hbuilt.intact, ReviewTools.fingerprint, ReviewTools.fingerprint]
    exact congrArg _ (congrArg (fun text ↦ (String.ofList text).toUTF8.data.toList) hcontent.symm)

end

end CodeConductor
