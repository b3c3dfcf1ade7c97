import CodeConductor.Source.Extract
import CodeConductor.Verification.Scope

/-!
# Specification drafts

A specification is Markdown with YAML frontmatter. `inspectSpecificationDraft` says what keeps a draft
from being ready, and `finalizeSpecificationDraft` makes a ready one `conductor-ready` by replacing the
first line of the file that looks like its status.

The regular expressions are written out as functions on the text from a position. What the YAML reader
makes of the frontmatter is a parameter, and so are the words in which it and the schema complain.
-/

namespace CodeConductor

/-! ### Metadata -/

/-- `specification.status`. -/
inductive SpecificationStatus where
  | draft | conductorReady | superseded
  deriving DecidableEq, Repr

namespace SpecificationStatus

/-- As it is written. -/
def name : SpecificationStatus → String
  | draft => "draft"
  | conductorReady => "conductor-ready"
  | superseded => "superseded"

/-- The status of a name. -/
def ofName (text : String) : Option SpecificationStatus :=
  [draft, conductorReady, superseded].find? fun status ↦ status.name = text

theorem ofName_eq_some {text : String} {status : SpecificationStatus} :
    ofName text = some status ↔ text = status.name := by
  constructor
  · intro h
    rw [ofName] at h
    have hname := List.find?_some h
    exact (of_decide_eq_true hname).symm
  · rintro rfl
    cases status <;> decide

end SpecificationStatus

/-- `metadata.specification`. -/
structure SpecificationFields where
  slug : String
  status : SpecificationStatus
  title : String
  targetProject : String
  deriving DecidableEq

/-- `metadata.conductor`. -/
structure ConductorFields where
  initialPhase : String
  scopeHints : List String
  verificationProfiles : List String
  deriving DecidableEq

/-- `SpecificationMetadata`. -/
structure SpecificationMetadata where
  specification : SpecificationFields
  conductor : ConductorFields
  deriving DecidableEq

/-- With another status. -/
def SpecificationMetadata.withStatus (metadata : SpecificationMetadata)
    (status : SpecificationStatus) : SpecificationMetadata :=
  { metadata with specification := { metadata.specification with status } }

namespace JsonValue

/-- A member of an object. -/
def member? (value : JsonValue) (key : String) : Option JsonValue :=
  match value with
  | .object members => members.lookup key
  | _ => none

/-- A field of an object, with its schema. -/
def field {α : Type} (value : JsonValue) (key : String) (schema : JsonValue → Option α) : Option α :=
  (value.member? key).bind schema

/-- The value at a path of keys. -/
def at? (value : JsonValue) : List String → Option JsonValue
  | [] => some value
  | key :: path => (value.member? key).bind fun inner ↦ inner.at? path

/-- With another value at a path of keys. -/
def replaceAt (value replacement : JsonValue) : List String → JsonValue
  | [] => replacement
  | key :: path =>
    match value with
    | .object members =>
      .object (members.map fun member ↦
        if key = member.1 then (member.1, member.2.replaceAt replacement path) else member)
    | other => other

end JsonValue

/-- `/^[a-z0-9]+(?:-[a-z0-9]+)*$/`. -/
def isSlug (text : String) : Bool :=
  (text.toList.splitOn '-').all fun segment ↦
    segment ≠ [] && segment.all fun c ↦ c.isLower || c.isDigit

/-- `z.string()`, with a check. -/
def stringWith (check : String → Bool) : JsonValue → Option String
  | .string text => if check text then some text else none
  | _ => none

/-- `z.array(z.string())`, with a check of each. -/
def stringsWith (check : String → Bool) : JsonValue → Option (List String)
  | .array items => items.mapM (stringWith check)
  | _ => none

/-- `.min(1)`. -/
def isFilled (text : String) : Bool := text ≠ ""

/-- The schema of `specification`. -/
def specificationSchema (value : JsonValue) : Option SpecificationFields := do
  let slug ← value.field "slug" (stringWith isSlug)
  let status ← value.field "status" fun text ↦
    (stringWith (fun _ ↦ true) text).bind SpecificationStatus.ofName
  let title ← value.field "title" (stringWith isFilled)
  let targetProject ← value.field "targetProject" (stringWith isFilled)
  return { slug, status, title, targetProject }

/-- The schema of `conductor`. -/
def conductorSchema (value : JsonValue) : Option ConductorFields := do
  let initialPhase ← value.field "initialPhase" (stringWith isFilled)
  let scopeHints ← value.field "scopeHints" fun hints ↦
    (stringsWith (fun text ↦ isFilled text && isSafeRelativePath text) hints).filter (· ≠ [])
  let verificationProfiles ←
    match value.member? "verificationProfiles" with
    | none => some []
    | some profiles => stringsWith isFilled profiles
  return { initialPhase, scopeHints, verificationProfiles }

/-- `specificationMetadataSchema`. -/
def specificationMetadataSchema (value : JsonValue) : Option SpecificationMetadata := do
  let specification ← value.field "specification" specificationSchema
  let conductor ← value.field "conductor" conductorSchema
  return { specification, conductor }

/-! ### Frontmatter -/

/-- `text.replaceAll("\r\n", "\n")`. -/
def normalizeLineEnds : List Char → List Char
  | [] => []
  | '\r' :: '\n' :: rest => '\n' :: normalizeLineEnds rest
  | c :: rest => c :: normalizeLineEnds rest

/-- What begins the frontmatter. -/
def frontmatterStart : List Char := ['-', '-', '-', '\n']

/-- What ends it. -/
def frontmatterEnd : List Char := ['\n', '-', '-', '-', '\n']

/-- What a library throws: a message, or the issues of a schema with their field paths. -/
inductive SpecificationError where
  | message (text : String)
  | issues (first : List String × String) (rest : List (List String × String))
  deriving DecidableEq

/-- What is not in the source: `Bun.YAML.parse`, and what the schema says of a value it refuses. -/
structure SpecificationTools where
  parseYaml : List Char → Except String JsonValue
  schemaIssues : JsonValue → (List String × String) × List (List String × String)

variable (tools : SpecificationTools)

/-- The text between the marks of the frontmatter. -/
def frontmatter (path : String) (text : List Char) : Except SpecificationError (List Char) :=
  let normalized := normalizeLineEnds text
  if frontmatterStart <+: normalized then
    match splitAtWord frontmatterEnd (normalized.drop 4) with
    | some (raw, _) => .ok raw
    | none => .error (.message ("Specification frontmatter is not closed: " ++ path))
  else .error (.message ("Specification must begin with YAML frontmatter: " ++ path))

/-- `parseSpecification`: the metadata of a specification. -/
def parseSpecification (path : String) (text : List Char) :
    Except SpecificationError SpecificationMetadata := do
  let raw ← frontmatter path text
  let value ← (tools.parseYaml raw).mapError .message
  match specificationMetadataSchema value with
  | some metadata => .ok metadata
  | none => .error (.issues (tools.schemaIssues value).1 (tools.schemaIssues value).2)

/-- `formatDraftError`. -/
def formatDraftError : SpecificationError → List String
  | .message text => [text]
  | .issues first rest => (first :: rest).map fun issue ↦ ".".intercalate issue.1 ++ ": " ++ issue.2

/-! ### Inspection -/

/-- The characters that end a line for a regular expression. -/
def isLineTerminator (c : Char) : Bool :=
  c = '\n' || c = '\r' || c.toNat = 0x2028 || c.toNat = 0x2029

/-- The text without the matches of an expression, of which the length of the match at a position is
given. -/
def removeMatches (find : List Char → Option ℕ) : ℕ → List Char → List Char
  | _, [] => []
  | skip + 1, _ :: rest => removeMatches find skip rest
  | 0, c :: rest =>
    match find (c :: rest) with
    | some length => removeMatches find (length - 1) rest
    | none => c :: removeMatches find 0 rest

/-- The matches of an expression. -/
def allMatches (find : List Char → Option ℕ) : ℕ → List Char → List (List Char)
  | _, [] => []
  | skip + 1, _ :: rest => allMatches find skip rest
  | 0, c :: rest =>
    match find (c :: rest) with
    | some length => (c :: rest).take length :: allMatches find (length - 1) rest
    | none => allMatches find 0 rest

/-- `/<!--[^]*?-->/`. -/
def findComment (text : List Char) : Option ℕ :=
  if ['<', '!', '-', '-'] <+: text then
    (splitAtWord ['-', '-', '>'] (text.drop 4)).map fun parts ↦ parts.1.length + 7
  else none

/-- `[A-Z][^>\n]{1,}|[^>\n]*\s[^>\n]*|stable-kebab-case-id|phase-id|package|name|id|value`, of text
without `>`. -/
def isPlaceholder (content : List Char) : Bool :=
  (match content with
    | c :: rest => c.isUpper && rest ≠ [] && '\n' ∉ rest
    | [] => false) ||
  (content.any isSpace && content.count '\n' ≤ 1) ||
  String.ofList content ∈ ["stable-kebab-case-id", "phase-id", "package", "name", "id", "value"]

/-- The placeholders of a draft. -/
def findPlaceholder : List Char → Option ℕ
  | '<' :: rest =>
    let content := rest.takeWhile (· ≠ '>')
    if content.length < rest.length && isPlaceholder content then some (content.length + 2) else none
  | _ => none

/-- `\w`. -/
def isWordChar (c : Char) : Bool := c.isAlphanum || c = '_'

/-- `/\bTODO\b/i`, after a character. -/
def hasTodo : Option Char → List Char → Bool
  | _, [] => false
  | previous, c :: rest =>
    (!previous.any isWordChar && ((c :: rest).take 4).map Char.toUpper = ['T', 'O', 'D', 'O'] &&
      !((c :: rest).drop 4).head?.any isWordChar) || hasTodo (some c) rest

/-- The number of matches of `/^- \[ \] (.+)$/`, from a position that begins a line or does not. -/
def uncheckedItems : Bool → List Char → ℕ
  | _, [] => 0
  | begins, c :: rest =>
    (if begins && ['-', ' ', '[', ' ', ']', ' '] <+: c :: rest &&
      ((c :: rest).drop 6).head?.any fun next ↦ !isLineTerminator next then 1 else 0) +
      uncheckedItems (isLineTerminator c) rest

/-- `REQUIRED_HEADINGS`. -/
def requiredHeadings : List String :=
  ["## 1. Request", "## 2. Problem and Evidence", "## 3. Intended Outcomes",
    "## 4. Design Principles and Invariants", "## 7. User or Operational Workflows",
    "## 8. Detailed Functional Requirements", "## 9. Architecture and Integration",
    "## 13. Verification Matrix", "## 14. Acceptance Criteria", "## 15. Implementation Phases",
    "## 16. Explicit Non-Goals", "## 19. Conductor Handoff", "## Conductor-ready quality gate"]

/-- `text.includes(word)`. -/
def includesWord (text : List Char) (word : String) : Bool := (splitAtWord word.toList text).isSome

/-- The prompts of `nextQuestions`, with their markers. -/
def draftPrompts : List (String × String) :=
  [("<What are we building?>", "What exactly should be created or changed, and for whom?"),
    ("<What happens today?>",
      "What currently happens, and what concrete evidence demonstrates the problem?"),
    ("<Outcome 1>",
      "Which observable outcomes define success, and what behavior must remain unchanged?"),
    ("<Principle>", "Which invariants should govern implementation tradeoffs?"),
    ("<Trigger>",
      "Describe the primary workflow and its failure, interruption, retry, and recovery paths."),
    ("<Normal behavior>", "What must each capability do for normal, edge, and prohibited cases?"),
    ("<Public service",
      "Which existing authority and public integration seams must be preserved?"),
    ("<Normal case>",
      "Which tests prove normal, boundary, malformed-input, and failure behavior?"),
    ("<Observable criterion>", "What objective pass/fail statements define completion?"),
    ("<phase-id>",
      "What is the smallest useful or uncertainty-reducing first phase and its exit evidence?"),
    ("<Not included>", "Which plausible adjacent work is explicitly outside scope?"),
    ("<one bounded implementation",
      "What exact first contract should Conductor launch, and when must it stop to ask?")]

/-- `nextQuestions`. -/
def nextQuestions (visible : List Char) (issues : List String) : List String :=
  if issues = [] then []
  else
    let selected := ((draftPrompts.filter fun prompt ↦ includesWord visible prompt.1).map
      Prod.snd).take 4
    if selected = [] then
      ["Resolve the reported readiness issues without inventing owner decisions."]
    else selected

/-- `SpecificationDraftInspection`. -/
structure DraftInspection where
  ready : Bool
  issues : List String
  nextQuestions : List String
  deriving DecidableEq

/-- `inspectSpecificationDraft`. -/
def inspectSpecificationDraft (path : String) (text : List Char) : DraftInspection :=
  let parsed := parseSpecification tools path text
  let visible := removeMatches findComment 0 text
  let placeholders := (allMatches findPlaceholder 0 visible).map String.ofList
  let unchecked := uncheckedItems true visible
  let issues :=
    (match parsed with
      | .error error => formatDraftError error
      | .ok _ => []) ++
    (if 0 < placeholders.length then
      ["Replace or remove visible placeholders: " ++ ", ".intercalate (placeholders.take 8)]
      else []) ++
    (if hasTodo none visible then ["Remove remaining TODO markers"] else []) ++
    (if 0 < unchecked then
      ["Complete the quality gate (" ++ toString unchecked ++ " unchecked items)"] else []) ++
    (requiredHeadings.filter fun heading ↦ !includesWord visible heading).map
      (fun heading ↦ "Restore required section: " ++ heading) ++
    (match parsed with
      | .ok metadata =>
        if metadata.specification.status = .superseded then ["A superseded specification cannot be launched"]
        else []
      | .error _ => [])
  { ready := decide (issues = []), issues, nextQuestions := nextQuestions visible issues }

/-! ### Finalization -/

/-- `\s*(?:#.*)?$`: what it matches, and the text after. -/
def matchTail (text : List Char) : Option (List Char × List Char) :=
  let blanks := text.takeWhile isSpace
  let rest := text.dropWhile isSpace
  match rest with
  | [] => some (blanks, [])
  | c :: _ =>
    if c = '#' then
      some (blanks ++ rest.takeWhile (!isLineTerminator ·), rest.dropWhile (!isLineTerminator ·))
    else
      -- blanks are given back up to the last one that ends a line
      let kept := blanks.rdropWhile (!isLineTerminator ·)
      if kept = [] then none else some (kept.dropLast, text.drop kept.dropLast.length)

/-- `status:`. -/
def statusKey : List Char := ['s', 't', 'a', 't', 'u', 's', ':']

/-- `(\s*status:\s*)word\s*(?:#.*)?$`, where a line begins: the group, what is matched after the word,
and the text after. -/
def matchStatusLine (word text : List Char) : Option (List Char × List Char × List Char) :=
  let key := text.dropWhile isSpace
  let value := (key.drop statusKey.length).dropWhile isSpace
  if statusKey <+: key && word <+: value then
    (matchTail (value.drop word.length)).map fun parts ↦
      (text.takeWhile isSpace ++ statusKey ++ (key.drop statusKey.length).takeWhile isSpace, parts)
  else none

/-- The first match of `/(^\s*status:\s*)word\s*(?:#.*)?$/m`: the text before the word, what is matched
after it, and the text after the match. -/
def findStatus (word : List Char) : List Char → Bool → List Char →
    Option (List Char × List Char × List Char)
  | _, _, [] => none
  | before, begins, c :: rest =>
    match (if begins then matchStatusLine word (c :: rest) else none) with
    | some (group, parts) => some (before ++ group, parts)
    | none => findStatus word (before ++ [c]) (isLineTerminator c) rest

/-- The words of the statuses. -/
def SpecificationStatus.word (status : SpecificationStatus) : List Char := status.name.toList

/-- `finalizeSpecificationDraft`, of a file with some text: what it returns, and the text of the file
after. -/
def finalizeSpecificationDraft (path : String) (text : List Char) : DraftInspection × List Char :=
  let inspection := inspectSpecificationDraft tools path text
  if !inspection.ready then (inspection, text)
  else
    match findStatus SpecificationStatus.draft.word [] true text with
    | some (before, _, after) =>
      (⟨true, [], []⟩, before ++ SpecificationStatus.conductorReady.word ++ after)
    | none =>
      if (findStatus SpecificationStatus.conductorReady.word [] true text).isSome then
        (⟨true, [], []⟩, text)
      else
        (⟨false, ["Frontmatter status must be draft or conductor-ready"],
          ["Set specification.status to draft, then finalize again."]⟩, text)

end CodeConductor
