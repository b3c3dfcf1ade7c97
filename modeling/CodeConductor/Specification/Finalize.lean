import CodeConductor.Contracts.Checks
import CodeConductor.Specification.Draft

/-!
# Finalized specifications

`finalizeSpecificationDraft` edits the file with a regular expression that knows nothing of the
frontmatter. It is honest exactly when the line it finds is the status of the frontmatter and nothing
stands behind it on the line; and where it finds no draft, when the specification is `conductor-ready`
already (`finalizesHonestly_iff`).

Of the YAML reader the proofs use what YAML says of plain scalars: where a word is written as a scalar of
its own it is the value there, and another word in its place is the value in its stead.
-/

namespace CodeConductor

/-! ### Words in YAML -/

/-- A word that YAML reads as a string wherever it is a plain scalar. -/
def isPlainWord (word : List Char) : Bool :=
  word.all (fun c ↦ c.isLower || c = '-') && word.head?.any Char.isLower &&
    word.getLast?.any Char.isLower &&
    String.ofList word ∉ ["null", "true", "false", "yes", "no", "on", "off", "y", "n"]

/-- A YAML reader, and where in a document the value at a path of keys is written as one word, if it is:
the text before the word, the word, and the text after it. -/
structure YamlReader extends SpecificationTools where
  wordAt : List Char → List String → Option (List Char × List Char × List Char)
  reads : ∀ {document path before word after}, wordAt document path = some (before, word, after) →
    document = before ++ word ++ after ∧ isPlainWord word = true ∧
      ∃ value, parseYaml document = .ok value ∧ value.at? path = some (.string (.ofList word))
  replaces : ∀ {document path before word after value other},
    wordAt document path = some (before, word, after) → parseYaml document = .ok value →
      isPlainWord other = true →
        wordAt (before ++ other ++ after) path = some (before, other, after) ∧
          parseYaml (before ++ other ++ after) =
            .ok (value.replaceAt (.string (.ofList other)) path)

variable (yaml : YamlReader) (path : String)

/-- Where the status is in the metadata. -/
def statusPath : List String := ["specification", "status"]

/-- A word stands in a specification as the status of its frontmatter. -/
structure StatusAt (text before word after : List Char) : Prop where
  text_eq : text = before ++ word ++ after
  placed : ∃ lead tail, normalizeLineEnds before = frontmatterStart ++ lead ∧
    frontmatter path text = .ok (lead ++ word ++ tail) ∧
      yaml.wordAt (lead ++ word ++ tail) statusPath = some (lead, word, tail)

/-- Two texts differ in the status of the frontmatter alone. -/
def SameOutsideStatus (text text' : List Char) : Prop :=
  text' = text ∨ ∃ before word word' after,
    StatusAt yaml path text before word after ∧ StatusAt yaml path text' before word' after

/-- What is called ready is `conductor-ready` then, with its other metadata and its text outside the
status as they were; otherwise the file is as it was. -/
def IsHonest (text : List Char) (result : DraftInspection × List Char) : Prop :=
  if result.1.ready then
    ∃ metadata, parseSpecification yaml.toSpecificationTools path text = .ok metadata ∧
      parseSpecification yaml.toSpecificationTools path result.2 =
        .ok (metadata.withStatus .conductorReady) ∧
      SameOutsideStatus yaml path text result.2
  else result.2 = text

/-- **Finalization is honest.** -/
def FinalizesHonestly (text : List Char) : Prop :=
  IsHonest yaml path text (finalizeSpecificationDraft yaml.toSpecificationTools path text)

/-- **The expression finds the status**: where a draft is ready, the first line that looks like a draft's
status is that of the frontmatter, with nothing behind the word; and where there is none but one that
looks like that of a `conductor-ready` specification, the specification is. -/
def FindsStatus (text : List Char) : Prop :=
  (inspectSpecificationDraft yaml.toSpecificationTools path text).ready = true →
    match findStatus SpecificationStatus.draft.word [] true text with
    | some (before, tail, after) =>
      tail = [] ∧ StatusAt yaml path text before SpecificationStatus.draft.word after
    | none =>
      (findStatus SpecificationStatus.conductorReady.word [] true text).isSome = true →
        ∃ metadata, parseSpecification yaml.toSpecificationTools path text = .ok metadata ∧
          metadata.specification.status = .conductorReady

/-! ### Texts with a word in them -/

theorem normalizeLineEnds_append {word : List Char} (h : '\r' ∉ word) (text : List Char) :
    normalizeLineEnds (word ++ text) = word ++ normalizeLineEnds text := by
  induction word with
  | nil => rfl
  | cons c word ih =>
    rw [List.mem_cons, not_or] at h
    rw [List.cons_append, normalizeLineEnds, ih h.2]
    · rfl
    · exact fun _ heq ↦ absurd heq.symm h.1

/-- Line ends are not made across a character that is part of none. -/
theorem normalizeLineEnds_append_cons {c : Char} (hreturn : c ≠ '\r') (hnewline : c ≠ '\n')
    (before after : List Char) :
    normalizeLineEnds (before ++ c :: after) =
      normalizeLineEnds before ++ c :: normalizeLineEnds after := by
  have hsingle : normalizeLineEnds (c :: after) = c :: normalizeLineEnds after := by
    have hword : '\r' ∉ [c] := fun hmem ↦ hreturn (List.mem_singleton.1 hmem).symm
    exact normalizeLineEnds_append hword after
  induction before using normalizeLineEnds.induct with
  | case1 => exact hsingle
  | case2 rest ih =>
    rw [List.cons_append, List.cons_append, normalizeLineEnds, normalizeLineEnds, ih, List.cons_append]
  | case3 d rest hnot ih =>
    rw [List.cons_append, normalizeLineEnds, normalizeLineEnds, ih, List.cons_append]
    · exact hnot
    · intro tail hd hrest
      cases rest with
      | nil => exact hnewline (List.cons.inj hrest).1
      | cons e rest => exact hnot rest hd (by rw [(List.cons.inj hrest).1])

/-- A word that does not begin in a mark and has no beginning of it is not part of any. -/
theorem splitAtWord_append_word {d : Char} {mark word : List Char} {c : Char} {rest : List Char}
    (hword : word = c :: rest) (hc : c ∉ d :: mark) (hd : d ∉ word) (lead tail : List Char) :
    splitAtWord (d :: mark) (lead ++ word ++ tail) =
      match splitAtWord (d :: mark) lead with
      | some parts => some (parts.1, parts.2 ++ word ++ tail)
      | none => (splitAtWord (d :: mark) tail).map fun parts ↦ (lead ++ word ++ parts.1, parts.2) := by
  induction lead with
  | nil =>
    have hskip : ∀ word : List Char, d ∉ word → splitAtWord (d :: mark) (word ++ tail) =
        (splitAtWord (d :: mark) tail).map fun parts ↦ (word ++ parts.1, parts.2) := by
      intro word hd
      induction word with
      | nil => exact Option.map_id'.symm ▸ rfl
      | cons e word ih =>
        rw [List.mem_cons, not_or] at hd
        rw [List.cons_append, splitAtWord, if_neg fun h ↦ hd.1 (List.cons_prefix_cons.1 h).1, ih hd.2,
          Option.map_map]
        rfl
    exact hskip word hd
  | cons e lead ih =>
    have hsame : d :: mark <+: e :: (lead ++ word ++ tail) ↔ d :: mark <+: e :: lead := by
      constructor
      · intro h
        have hwhole : e :: lead <+: e :: (lead ++ word ++ tail) := by
          rw [List.append_assoc, ← List.cons_append]
          exact List.prefix_append _ _
        rcases List.prefix_or_prefix_of_prefix h hwhole with h' | ⟨more, hmore⟩
        · exact h'
        obtain ⟨post, hpost⟩ := h
        cases more with
        | nil =>
          rw [List.append_nil] at hmore
          exact hmore ▸ List.prefix_rfl
        | cons m more =>
          -- the mark would have the first character of the word
          have hshared : e :: lead ++ m :: (more ++ post) = e :: lead ++ c :: (rest ++ tail) := by
            have hleft : e :: lead ++ m :: (more ++ post) = d :: mark ++ post := by
              rw [← hmore, List.append_assoc, List.cons_append (a := m)]
            rw [hleft, hpost, hword, List.append_assoc]
            rfl
          obtain rfl : m = c := (List.cons.inj (List.append_cancel_left hshared)).1
          exact absurd (hmore ▸ List.mem_append_right _ List.mem_cons_self) hc
      · intro h
        rw [List.append_assoc, ← List.cons_append]
        exact h.trans (List.prefix_append _ _)
    rw [List.cons_append, List.cons_append, splitAtWord, splitAtWord]
    by_cases hhere : d :: mark <+: e :: lead
    · rw [if_pos (hsame.2 hhere), if_pos hhere]
      obtain ⟨more, hmore⟩ := hhere
      have hwhole : e :: (lead ++ word ++ tail) = d :: mark ++ (more ++ word ++ tail) := by
        rw [← List.append_assoc, ← List.append_assoc, hmore, List.cons_append, List.cons_append]
      rw [hwhole, ← hmore, List.drop_left, List.drop_left]
    · rw [if_neg fun h ↦ hhere (hsame.1 h), if_neg hhere, ih]
      cases splitAtWord (d :: mark) lead with
      | some parts => rfl
      | none =>
        rw [Option.map_none, Option.map_map]
        rfl

theorem append_of_splitAtWord {word text skipped rest : List Char}
    (h : splitAtWord word text = some (skipped, rest)) : text = skipped ++ word ++ rest := by
  induction text generalizing skipped with
  | nil =>
    rw [splitAtWord] at h
    split at h
    · rename_i hword
      obtain ⟨rfl, rfl⟩ := Prod.mk.inj (Option.some.inj h)
      rw [hword]
      rfl
    · cases h
  | cons c text ih =>
    rw [splitAtWord] at h
    split at h
    · rename_i hstart
      obtain ⟨rfl, rfl⟩ := Prod.mk.inj (Option.some.inj h)
      obtain ⟨more, hmore⟩ := hstart
      rw [← hmore, List.drop_left]
      rfl
    · obtain ⟨⟨skipped, rest⟩, hrest, heq⟩ := Option.map_eq_some_iff.1 h
      obtain ⟨rfl, rfl⟩ := Prod.mk.inj heq
      rw [ih hrest]
      rfl

section PlainWord

variable {word : List Char}

theorem isPlainWord_cons (h : isPlainWord word = true) :
    ∃ c rest, word = c :: rest ∧ c.isLower = true := by
  rw [isPlainWord, Bool.and_eq_true, Bool.and_eq_true, Bool.and_eq_true] at h
  cases word with
  | nil => exact nomatch h.1.1.2
  | cons c rest => exact ⟨c, rest, rfl, h.1.1.2⟩

theorem not_mem_of_isPlainWord (h : isPlainWord word = true) {c : Char} (hlower : c.isLower = false)
    (hhyphen : c ≠ '-') : c ∉ word := by
  rw [isPlainWord, Bool.and_eq_true, Bool.and_eq_true, Bool.and_eq_true] at h
  intro hmem
  have hchar := List.all_eq_true.1 h.1.1.1 c hmem
  rw [hlower, Bool.false_or] at hchar
  exact hhyphen (of_decide_eq_true hchar)

theorem normalizeLineEnds_word (h : isPlainWord word = true) (before after : List Char) :
    normalizeLineEnds (before ++ word ++ after) =
      normalizeLineEnds before ++ word ++ normalizeLineEnds after := by
  obtain ⟨c, rest, rfl, hc⟩ := isPlainWord_cons h
  have hreturn : '\r' ∉ c :: rest := not_mem_of_isPlainWord h (by decide) (by decide)
  have hne (d : Char) (hd : d.isLower = false) : c ≠ d := fun heq ↦ by
    rw [heq, hd] at hc
    exact nomatch hc
  rw [List.append_assoc, List.cons_append,
    normalizeLineEnds_append_cons (hne _ (by decide)) (hne _ (by decide)),
    normalizeLineEnds_append (fun hmem ↦ hreturn (List.mem_cons_of_mem _ hmem)), List.append_assoc]
  rfl

theorem frontmatter_eq_ok {path : String} {text raw : List Char} :
    frontmatter path text = .ok raw ↔ ∃ body rest,
      normalizeLineEnds text = frontmatterStart ++ body ∧
        splitAtWord frontmatterEnd body = some (raw, rest) := by
  rw [frontmatter]
  constructor
  · intro h
    split at h
    · rename_i hstart
      obtain ⟨body, hbody⟩ := hstart
      have hdrop : (normalizeLineEnds text).drop 4 = body := by rw [← hbody]; rfl
      rw [hdrop] at h
      split at h
      · rename_i found rest hsplit
        obtain rfl := Except.ok.inj h
        exact ⟨body, rest, hbody.symm, hsplit⟩
      · exact nomatch h
    · exact nomatch h
  · rintro ⟨body, rest, hbody, hsplit⟩
    have hdrop : (frontmatterStart ++ body).drop 4 = body := rfl
    rw [hbody, if_pos (List.prefix_append _ _), hdrop, hsplit]

/-- **Another word in the frontmatter** leaves its ends where they are. -/
theorem frontmatter_replace {path : String} {before after lead tail other : List Char}
    (hword : isPlainWord word = true) (hother : isPlainWord other = true)
    (hlead : normalizeLineEnds before = frontmatterStart ++ lead)
    (h : frontmatter path (before ++ word ++ after) = .ok (lead ++ word ++ tail)) :
    frontmatter path (before ++ other ++ after) = .ok (lead ++ other ++ tail) := by
  have hsplit {word : List Char} (h : isPlainWord word = true) :
      splitAtWord frontmatterEnd (lead ++ word ++ normalizeLineEnds after) =
        match splitAtWord frontmatterEnd lead with
        | some parts => some (parts.1, parts.2 ++ word ++ normalizeLineEnds after)
        | none => (splitAtWord frontmatterEnd (normalizeLineEnds after)).map fun parts ↦
          (lead ++ word ++ parts.1, parts.2) := by
    obtain ⟨c, rest, hcons, hc⟩ := isPlainWord_cons h
    have hmark : c ∉ frontmatterEnd := fun hmem ↦ by
      have hcases : c = '\n' ∨ c = '-' ∨ c = '\n' := by simpa [frontmatterEnd] using hmem
      rcases hcases with rfl | rfl | rfl <;> exact nomatch hc
    exact splitAtWord_append_word hcons hmark
      (not_mem_of_isPlainWord h (by decide) (by decide)) lead _
  have hnormalized {word : List Char} (h : isPlainWord word = true) :
      normalizeLineEnds (before ++ word ++ after) =
        frontmatterStart ++ (lead ++ word ++ normalizeLineEnds after) := by
    rw [normalizeLineEnds_word h, hlead, List.append_assoc, List.append_assoc, List.append_assoc]
  obtain ⟨body, rest, hbody, hfound⟩ := frontmatter_eq_ok.1 h
  obtain rfl := List.append_cancel_left ((hnormalized hword).symm.trans hbody)
  refine frontmatter_eq_ok.2 ⟨_, rest, hnormalized hother, ?_⟩
  rw [hsplit hword] at hfound
  rw [hsplit hother]
  cases hlead' : splitAtWord frontmatterEnd lead with
  | some parts =>
    -- the frontmatter would end before the word
    rw [hlead'] at hfound
    obtain ⟨hparts, -⟩ := Prod.mk.inj (Option.some.inj hfound)
    have hlength := congrArg List.length (append_of_splitAtWord hlead')
    rw [hparts] at hlength
    simp only [List.length_append, frontmatterEnd, List.length_cons] at hlength
    omega
  | none =>
    rw [hlead'] at hfound
    obtain ⟨⟨found, rest'⟩, hafter, heq⟩ := Option.map_eq_some_iff.1 hfound
    obtain ⟨htail, rfl⟩ := Prod.mk.inj heq
    obtain rfl := List.append_cancel_left htail
    rw [hafter]
    rfl

end PlainWord

/-! ### The metadata with another status -/

namespace JsonValue

theorem lookup_map_replaceAt (members : List (String × JsonValue)) (replacement : JsonValue)
    (key : String) (path : List String) (key' : String) :
    (members.map fun member ↦
        if key = member.1 then (member.1, member.2.replaceAt replacement path) else member).lookup key' =
      (members.lookup key').map fun inner ↦
        if key = key' then inner.replaceAt replacement path else inner := by
  induction members with
  | nil => rfl
  | cons member members ih =>
    obtain ⟨name, inner⟩ := member
    have hname : (if key = name then (name, inner.replaceAt replacement path) else (name, inner)) =
        (name, if key = name then inner.replaceAt replacement path else inner) := by
      split <;> rfl
    rw [List.map_cons, hname, List.lookup_cons, List.lookup_cons, ih]
    split
    · rename_i heq
      rw [eq_of_beq heq]
      rfl
    · rfl

theorem member?_replaceAt (value replacement : JsonValue) (key : String) (path : List String)
    (key' : String) :
    (value.replaceAt replacement (key :: path)).member? key' =
      (value.member? key').map fun inner ↦
        if key = key' then inner.replaceAt replacement path else inner := by
  cases value with
  | object members => exact lookup_map_replaceAt members replacement key path key'
  | _ => rfl

theorem field_replaceAt_of_ne {α : Type} {value replacement : JsonValue} {key key' : String}
    (h : key ≠ key') (path : List String) (schema : JsonValue → Option α) :
    (value.replaceAt replacement (key :: path)).field key' schema = value.field key' schema := by
  rw [field, field, member?_replaceAt]
  simp only [if_neg h, Option.map_id']

theorem field_replaceAt {α : Type} {value inner replacement : JsonValue} {key : String}
    (h : value.member? key = some inner) (path : List String) (schema : JsonValue → Option α) :
    (value.replaceAt replacement (key :: path)).field key schema =
      schema (inner.replaceAt replacement path) := by
  rw [field, member?_replaceAt, h, Option.map_some, if_pos rfl]
  rfl

end JsonValue

theorem specificationSchema_replaceAt {value : JsonValue} {fields : SpecificationFields}
    (h : specificationSchema value = some fields) (status : SpecificationStatus) :
    specificationSchema (value.replaceAt (.string status.name) ["status"]) =
      some { fields with status } := by
  rw [specificationSchema] at h ⊢
  obtain ⟨slug, hslug, h⟩ := Option.bind_eq_some_iff.1 h
  obtain ⟨was, hwas, h⟩ := Option.bind_eq_some_iff.1 h
  obtain ⟨title, htitle, h⟩ := Option.bind_eq_some_iff.1 h
  obtain ⟨targetProject, htarget, h⟩ := Option.bind_eq_some_iff.1 h
  obtain rfl := Option.some.inj h
  obtain ⟨inner, hinner, -⟩ := Option.bind_eq_some_iff.1 hwas
  have hstatus : SpecificationStatus.ofName status.name = some status :=
    SpecificationStatus.ofName_eq_some.2 rfl
  rw [JsonValue.field_replaceAt_of_ne (by decide), hslug, JsonValue.field_replaceAt hinner,
    JsonValue.field_replaceAt_of_ne (by decide), htitle,
    JsonValue.field_replaceAt_of_ne (by decide), htarget]
  show (Option.bind (SpecificationStatus.ofName status.name) _) = _
  rw [hstatus]
  rfl

/-- **The metadata of another status** are those there were, with it. -/
theorem specificationMetadataSchema_replaceAt {value : JsonValue} {metadata : SpecificationMetadata}
    (h : specificationMetadataSchema value = some metadata) (status : SpecificationStatus) :
    specificationMetadataSchema (value.replaceAt (.string status.name) statusPath) =
      some (metadata.withStatus status) := by
  rw [specificationMetadataSchema] at h ⊢
  obtain ⟨specification, hspecification, h⟩ := Option.bind_eq_some_iff.1 h
  obtain ⟨conductor, hconductor, h⟩ := Option.bind_eq_some_iff.1 h
  obtain rfl := Option.some.inj h
  obtain ⟨inner, hinner, hschema⟩ := Option.bind_eq_some_iff.1 hspecification
  rw [statusPath, JsonValue.field_replaceAt hinner, specificationSchema_replaceAt hschema,
    JsonValue.field_replaceAt_of_ne (by decide), hconductor]
  rfl

/-- The status in the metadata is the string at its path. -/
theorem status_of_at? {value : JsonValue} {metadata : SpecificationMetadata} {text : String}
    (h : specificationMetadataSchema value = some metadata)
    (hat : value.at? statusPath = some (.string text)) :
    text = metadata.specification.status.name := by
  obtain ⟨specification, hspecification, h⟩ := Option.bind_eq_some_iff.1 h
  obtain ⟨conductor, hconductor, h⟩ := Option.bind_eq_some_iff.1 h
  obtain rfl := Option.some.inj h
  obtain ⟨inner, hinner, hschema⟩ := Option.bind_eq_some_iff.1 hspecification
  obtain ⟨slug, hslug, hschema⟩ := Option.bind_eq_some_iff.1 hschema
  obtain ⟨status, hstatus, hschema⟩ := Option.bind_eq_some_iff.1 hschema
  obtain ⟨title, htitle, hschema⟩ := Option.bind_eq_some_iff.1 hschema
  obtain ⟨targetProject, htarget, hschema⟩ := Option.bind_eq_some_iff.1 hschema
  obtain rfl := Option.some.inj hschema
  obtain ⟨value', hvalue', hstatus⟩ := Option.bind_eq_some_iff.1 hstatus
  have hat' : value.at? statusPath = some value' := by
    rw [statusPath, JsonValue.at?, hinner, Option.bind_some, JsonValue.at?, hvalue']
    rfl
  obtain rfl : value' = .string text := Option.some.inj (hat'.symm.trans hat)
  exact SpecificationStatus.ofName_eq_some.1 hstatus

/-! ### The place of the status -/

section Place

variable {yaml : YamlReader} {path : String} {text : List Char} {metadata : SpecificationMetadata}

theorem parseSpecification_eq_ok {tools : SpecificationTools} :
    parseSpecification tools path text = .ok metadata ↔ ∃ raw value, frontmatter path text = .ok raw ∧
      tools.parseYaml raw = .ok value ∧ specificationMetadataSchema value = some metadata := by
  constructor
  · intro h
    obtain ⟨raw, hraw, h⟩ := bind_eq_ok.1 h
    obtain ⟨value, hvalue, h⟩ := bind_eq_ok.1 h
    refine ⟨raw, value, hraw, ?_, ?_⟩
    · cases hparse : tools.parseYaml raw with
      | error message =>
        rw [hparse] at hvalue
        cases hvalue
      | ok found =>
        rw [hparse] at hvalue
        exact congrArg Except.ok (Except.ok.inj hvalue)
    · split at h
      · rename_i hschema
        rw [hschema, Except.ok.inj h]
      · cases h
  · rintro ⟨raw, value, hraw, hvalue, hschema⟩
    rw [parseSpecification, hraw]
    show ((tools.parseYaml raw).mapError SpecificationError.message >>= _) = _
    rw [hvalue]
    simp only [bind, Except.bind, Except.mapError, hschema]

theorem isPlainWord_word (status : SpecificationStatus) : isPlainWord status.word = true := by
  cases status <;> decide

/-- The word at the place of the status is the status. -/
theorem StatusAt.eq_word {before word after : List Char} (h : StatusAt yaml path text before word after)
    (hparse : parseSpecification yaml.toSpecificationTools path text = .ok metadata) :
    word = metadata.specification.status.word := by
  obtain ⟨raw, value, hraw, hvalue, hschema⟩ := parseSpecification_eq_ok.1 hparse
  obtain ⟨lead, tail, -, hfront, hplace⟩ := h.placed
  obtain rfl := Except.ok.inj (hraw.symm.trans hfront)
  obtain ⟨-, -, value', hvalue', hat⟩ := yaml.reads hplace
  obtain rfl := Except.ok.inj (hvalue.symm.trans hvalue')
  rw [SpecificationStatus.word, ← status_of_at? hschema hat, String.toList_ofList]

/-- **Another status in its place** is the status of the specification, and nothing else is different. -/
theorem StatusAt.replace {before word after : List Char}
    (h : StatusAt yaml path text before word after)
    (hparse : parseSpecification yaml.toSpecificationTools path text = .ok metadata)
    (status : SpecificationStatus) :
    StatusAt yaml path (before ++ status.word ++ after) before status.word after ∧
      parseSpecification yaml.toSpecificationTools path (before ++ status.word ++ after) =
        .ok (metadata.withStatus status) := by
  obtain ⟨raw, value, hraw, hvalue, hschema⟩ := parseSpecification_eq_ok.1 hparse
  obtain ⟨lead, tail, hlead, hfront, hplace⟩ := h.placed
  obtain rfl := Except.ok.inj (hraw.symm.trans hfront)
  obtain ⟨-, hplain, -⟩ := yaml.reads hplace
  obtain ⟨hplace', hvalue'⟩ := yaml.replaces hplace hvalue (isPlainWord_word status)
  have hfront' : frontmatter path (before ++ status.word ++ after) = .ok (lead ++ status.word ++ tail) :=
    frontmatter_replace hplain (isPlainWord_word status) hlead (h.text_eq ▸ hfront)
  refine ⟨⟨rfl, lead, tail, hlead, hfront', hplace'⟩,
    parseSpecification_eq_ok.2 ⟨_, _, hfront', hvalue', ?_⟩⟩
  rw [SpecificationStatus.word, String.ofList_toList]
  exact specificationMetadataSchema_replaceAt hschema status

theorem draft_ne_conductorReady {before rest rest' : List Char} :
    before ++ SpecificationStatus.draft.word ++ rest ≠
      before ++ SpecificationStatus.conductorReady.word ++ rest' := by
  rw [List.append_assoc, List.append_assoc]
  intro h
  exact absurd (List.cons.inj (List.append_cancel_left h)).1 (by decide)

/-- Where a word put in place of another is put in place of a status, the two places are one. -/
theorem place_unique {before tail after lead rest : List Char} {status : SpecificationStatus}
    (hnot : status ≠ .superseded)
    (htext : before ++ SpecificationStatus.draft.word ++ tail ++ after = lead ++ status.word ++ rest)
    (hfile : before ++ SpecificationStatus.conductorReady.word ++ after =
      lead ++ SpecificationStatus.conductorReady.word ++ rest) :
    status = .draft ∧ tail = [] ∧ lead = before ∧ rest = after := by
  have hdraft : SpecificationStatus.draft.word = 'd' :: SpecificationStatus.draft.word.tail := by decide
  have hready : SpecificationStatus.conductorReady.word =
      'c' :: SpecificationStatus.conductorReady.word.tail := by decide
  cases status with
  | superseded => exact absurd rfl hnot
  | conductorReady =>
    rw [← hfile, List.append_assoc _ tail] at htext
    exact absurd htext draft_ne_conductorReady
  | draft =>
    have hlengths := congrArg List.length htext
    have hlengths' := congrArg List.length hfile
    simp only [List.length_append] at hlengths hlengths'
    obtain rfl : tail = [] := List.eq_nil_of_length_eq_zero (by omega)
    rw [List.append_nil] at htext
    -- what stands between the places would begin with the first characters of both words
    have hbetween {p q r s : List Char}
        (hp : p ++ SpecificationStatus.draft.word ++ q = r ++ SpecificationStatus.draft.word ++ s)
        (hr : p ++ SpecificationStatus.conductorReady.word ++ q =
          r ++ SpecificationStatus.conductorReady.word ++ s) {z : List Char} (hz : r = p ++ z) :
        z = [] := by
      cases z with
      | nil => rfl
      | cons c z =>
        rw [hz, hdraft, List.append_assoc, List.append_assoc, List.append_assoc] at hp
        rw [hz, hready, List.append_assoc, List.append_assoc, List.append_assoc] at hr
        have hc := (List.cons.inj (List.append_cancel_left hp)).1
        have hc' := (List.cons.inj (List.append_cancel_left hr)).1
        exact absurd (hc.trans hc'.symm) (by decide)
    have hlead : lead = before := by
      have hparts := htext
      rw [List.append_assoc, List.append_assoc] at hparts
      rcases List.append_eq_append_iff.1 hparts with ⟨z, hz, -⟩ | ⟨z, hz, -⟩
      · rw [hz, hbetween htext hfile hz, List.append_nil]
      · rw [hz, hbetween htext.symm hfile.symm hz, List.append_nil]
    subst hlead
    exact ⟨rfl, rfl, rfl, (List.append_cancel_left htext).symm⟩

end Place

/-! ### The file -/

section File

variable {yaml : YamlReader} {path : String} {text : List Char}

theorem matchTail_eq_some {tail after : List Char} (h : matchTail text = some (tail, after)) :
    text = tail ++ after := by
  have hblanks : text.takeWhile isSpace ++ text.dropWhile isSpace = text :=
    List.takeWhile_append_dropWhile
  rw [matchTail] at h
  dsimp only at h
  split at h
  · rename_i hrest
    obtain ⟨rfl, rfl⟩ := Prod.mk.inj (Option.some.inj h)
    rw [← hrest, hblanks]
  · split at h
    · obtain ⟨rfl, rfl⟩ := Prod.mk.inj (Option.some.inj h)
      rw [List.append_assoc, List.takeWhile_append_dropWhile, hblanks]
    · split at h
      · exact nomatch h
      · obtain ⟨rfl, rfl⟩ := Prod.mk.inj (Option.some.inj h)
        have hkept : ((text.takeWhile isSpace).rdropWhile (!isLineTerminator ·)).dropLast <+: text :=
          (List.dropLast_prefix _).trans
            ((List.rdropWhile_prefix _ _).trans (List.takeWhile_prefix _))
        exact List.prefix_iff_eq_append.1 hkept |>.symm

theorem matchStatusLine_eq_some {word group tail after : List Char}
    (h : matchStatusLine word text = some (group, tail, after)) :
    text = group ++ word ++ tail ++ after := by
  rw [matchStatusLine] at h
  split at h
  · rename_i hfound
    rw [Bool.and_eq_true, decide_eq_true_eq, decide_eq_true_eq] at hfound
    obtain ⟨⟨tail, after⟩, htail, heq⟩ := Option.map_eq_some_iff.1 h
    obtain ⟨hgroup, heq⟩ := Prod.mk.inj heq
    obtain ⟨rfl, rfl⟩ := Prod.mk.inj heq
    have hkey := List.prefix_iff_eq_append.1 hfound.1
    have hvalue := List.prefix_iff_eq_append.1 hfound.2
    have hrest := matchTail_eq_some htail
    rw [← hgroup]
    simp only [List.append_assoc]
    rw [← hrest, hvalue, List.takeWhile_append_dropWhile, hkey, List.takeWhile_append_dropWhile]
  · exact nomatch h

/-- What the expression matches. -/
theorem findStatus_eq_some {word : List Char} {begins : Bool} {lead before tail after : List Char}
    (h : findStatus word lead begins text = some (before, tail, after)) :
    lead ++ text = before ++ word ++ tail ++ after := by
  induction text generalizing lead begins with
  | nil => exact nomatch h
  | cons c rest ih =>
    rw [findStatus] at h
    split at h
    · rename_i hfound
      obtain ⟨rfl, rfl⟩ := Prod.mk.inj (Option.some.inj h)
      split at hfound
      · rw [matchStatusLine_eq_some hfound]
        simp only [List.append_assoc]
      · exact nomatch hfound
    · rw [← ih h, List.append_assoc]
      rfl

/-- What is ready has metadata, and is not superseded. -/
theorem exists_metadata
    (h : (inspectSpecificationDraft yaml.toSpecificationTools path text).ready = true) :
    ∃ metadata, parseSpecification yaml.toSpecificationTools path text = .ok metadata ∧
      metadata.specification.status ≠ .superseded := by
  have hissues := of_decide_eq_true h
  simp only [List.append_eq_nil_iff] at hissues
  cases hparse : parseSpecification yaml.toSpecificationTools path text with
  | error error =>
    rw [hparse] at hissues
    cases error with
    | message text => exact nomatch hissues.1.1.1.1.1
    | issues first rest => exact nomatch hissues.1.1.1.1.1
  | ok metadata =>
    rw [hparse] at hissues
    refine ⟨metadata, rfl, fun hsuperseded ↦ ?_⟩
    have hlast : (if metadata.specification.status = .superseded then
        ["A superseded specification cannot be launched"] else []) = [] := hissues.2
    rw [if_pos hsuperseded] at hlast
    exact nomatch hlast

/-- The file of a draft, with the word the expression finds replaced. -/
theorem isHonest_draft_iff {metadata : SpecificationMetadata} {before tail after : List Char}
    (hparse : parseSpecification yaml.toSpecificationTools path text = .ok metadata)
    (hnot : metadata.specification.status ≠ .superseded)
    (hfound : findStatus SpecificationStatus.draft.word [] true text = some (before, tail, after)) :
    IsHonest yaml path text
        (⟨true, [], []⟩, before ++ SpecificationStatus.conductorReady.word ++ after) ↔
      tail = [] ∧ StatusAt yaml path text before SpecificationStatus.draft.word after := by
  have htext : text = before ++ SpecificationStatus.draft.word ++ tail ++ after :=
    findStatus_eq_some hfound
  rw [IsHonest, if_pos rfl]
  constructor
  · rintro ⟨metadata', hparse', hfile, hsame | ⟨lead, word, word', rest, hplace, hplace'⟩⟩
    · rw [htext, List.append_assoc _ tail] at hsame
      exact absurd hsame.symm draft_ne_conductorReady
    · obtain rfl := hplace.eq_word hparse
      obtain rfl := hplace'.eq_word hfile
      have hwords := hplace.text_eq
      rw [htext] at hwords
      obtain ⟨hstatus, htail, rfl, rfl⟩ := place_unique hnot hwords hplace'.text_eq
      exact ⟨htail, hstatus ▸ hplace⟩
  · rintro ⟨rfl, hplace⟩
    obtain ⟨hplace', hparse'⟩ := hplace.replace hparse .conductorReady
    exact ⟨metadata, hparse, hparse', .inr ⟨before, _, _, after, hplace, hplace'⟩⟩

/-- The file where no draft is found. -/
theorem isHonest_same_iff {metadata : SpecificationMetadata}
    (hparse : parseSpecification yaml.toSpecificationTools path text = .ok metadata) :
    IsHonest yaml path text (⟨true, [], []⟩, text) ↔
      ∃ metadata, parseSpecification yaml.toSpecificationTools path text = .ok metadata ∧
        metadata.specification.status = .conductorReady := by
  rw [IsHonest, if_pos rfl]
  constructor
  · rintro ⟨metadata', hparse', hready, -⟩
    obtain rfl := Except.ok.inj (hparse.symm.trans hparse')
    refine ⟨metadata, hparse, ?_⟩
    rw [Except.ok.inj (hparse.symm.trans hready)]
    rfl
  · rintro ⟨metadata', hparse', hready⟩
    refine ⟨metadata', hparse', ?_, .inl rfl⟩
    rw [hparse', SpecificationMetadata.withStatus, ← hready]

end File

/-- **Finalization is honest exactly when the expression finds the status of the frontmatter.** -/
theorem finalizesHonestly_iff (yaml : YamlReader) (path : String) (text : List Char) :
    FinalizesHonestly yaml path text ↔ FindsStatus yaml path text := by
  rw [FinalizesHonestly, FindsStatus, finalizeSpecificationDraft]
  cases hready : (inspectSpecificationDraft yaml.toSpecificationTools path text).ready with
  | false =>
    rw [if_pos (by decide : (!false) = true), IsHonest, if_neg (by rw [hready]; decide)]
    exact iff_of_true rfl nofun
  | true =>
    rw [if_neg (by decide : ¬(!true) = true), forall_prop_of_true rfl]
    obtain ⟨metadata, hparse, hnot⟩ := exists_metadata hready
    cases hdraft : findStatus SpecificationStatus.draft.word [] true text with
    | some found =>
      obtain ⟨before, tail, after⟩ := found
      exact isHonest_draft_iff hparse hnot hdraft
    | none =>
      cases hword : (findStatus SpecificationStatus.conductorReady.word [] true text).isSome with
      | false => exact iff_of_true rfl nofun
      | true =>
        refine Iff.trans ?_ (forall_prop_of_true rfl).symm
        exact isHonest_same_iff hparse

/-- Frontmatter with a quoted status. -/
def quotedFrontmatter : List Char :=
  ("specification:\n  slug: fixture\n  status: \"draft\"\n  title: Fixture\n  targetProject: fixture\n" ++
    "conductor:\n  initialPhase: phase-1\n  scopeHints:\n    - src").toList

/-- A complete specification with this frontmatter, and a line in its body that looks like a status. -/
def quotedSpecification : List Char :=
  "---\n".toList ++ quotedFrontmatter ++ "\n---\nstatus: draft\n".toList ++
    requiredHeadings.flatMap fun heading ↦ heading.toList ++ ['\n']

/-- What a YAML reader makes of this frontmatter, in which the status is not written as a word. -/
def quotedReader : YamlReader where
  parseYaml document :=
    if document = quotedFrontmatter then
      .ok (.object
        [("specification", .object
          [("slug", .string "fixture"), ("status", .string "draft"), ("title", .string "Fixture"),
            ("targetProject", .string "fixture")]),
        ("conductor", .object
          [("initialPhase", .string "phase-1"), ("scopeHints", .array [.string "src"])])])
    else .error "YAML Parse error: Unexpected token"
  schemaIssues _ := (([], "Invalid input"), [])
  wordAt _ _ := none
  reads := nofun
  replaces := nofun

/-- What is called ready and is a draft is not honest. -/
theorem not_isHonest {yaml : YamlReader} {path : String} {text : List Char}
    {result : DraftInspection × List Char}
    (h : (result.1.ready, (parseSpecification yaml.toSpecificationTools path result.2).toOption.map
      fun metadata ↦ metadata.specification.status) = (true, some .draft)) :
    ¬IsHonest yaml path text result := by
  obtain ⟨hready, hdraft⟩ := Prod.mk.inj h
  rw [IsHonest, if_pos hready]
  rintro ⟨metadata, -, hfile, -⟩
  rw [hfile] at hdraft
  have hstatus : SpecificationStatus.conductorReady = .draft := Option.some.inj hdraft
  exact nomatch hstatus

/-- The line in the body becomes `conductor-ready`; the specification stays a draft and is called ready. -/
theorem not_finalizesHonestly_quoted :
    ¬FinalizesHonestly quotedReader "/specs/fixture.md" quotedSpecification :=
  not_isHonest (by decide +kernel)

end CodeConductor
