import CodeConductor.Verification.Segments
import Mathlib.Data.List.Dedup
import Mathlib.Data.List.Lex

/-!
# Path scopes

The owner restricts what a proposal may touch by path rules: exact files or directory prefixes.
`evaluatePathScope` works on normalized texts. What a rule means is said on segments, and the two
readings agree but for a rule with an inner `//`, which matches nothing, and for a file name with a
backslash, which is read as two segments.
-/

namespace CodeConductor

/-! ### The code -/

/-- `value.replaceAll("\\", "/")`. -/
def portable (value : String) : List Char :=
  value.toList.map fun c ↦ if c = '\\' then '/' else c

/-- `path.win32.isAbsolute`. -/
def isWin32Absolute : List Char → Bool
  | '/' :: _ => true
  | '\\' :: _ => true
  | drive :: ':' :: slash :: _ => drive.isAlpha && (slash = '/' || slash = '\\')
  | _ => false

/-- `/^[A-Za-z]:/`. -/
def hasDrive : List Char → Bool
  | drive :: ':' :: _ => drive.isAlpha
  | _ => false

/-- `isSafeRelativePath`. -/
def isSafeRelativePath (value : String) : Bool :=
  let text := portable value
  if text.head? = some '/' || isWin32Absolute value.toList || hasDrive value.toList ||
      text.any (fun c ↦ c ∈ ['*', '?', '[', ']']) then false
  else
    let segments := List.segmentsOn '/' text
    0 < segments.length && segments.all fun segment ↦ segment ≠ ['.'] && segment ≠ ['.', '.']

/-- What `relativePathSchema` accepts. -/
structure RelativePath where
  text : String
  safe : isSafeRelativePath text = true
  deriving DecidableEq

/-- `contract.scope`. -/
structure JobScope where
  allowedPaths : List RelativePath
  forbiddenPaths : List RelativePath
  protectedPaths : List RelativePath
  deriving DecidableEq

/-- The kinds of scope violations. -/
inductive ScopeViolationKind where
  | outsideAllowed | forbidden | protectedPath
  deriving DecidableEq, Repr

/-- An entry of `violations`. -/
structure ScopeViolation where
  path : String
  kind : ScopeViolationKind
  rule : String
  deriving DecidableEq, Repr

/-- The status of a scope. -/
inductive ScopeStatus where
  | notRun | notConfigured | passed | failed
  deriving DecidableEq, Repr

/-- `VerificationRecord["scope"]`. -/
structure ScopeRecord where
  status : ScopeStatus
  changedPaths : List String
  violations : List ScopeViolation
  deriving DecidableEq, Repr

/-- `normalizePath`: backslashes become slashes, one leading `./` and all trailing slashes go. -/
def normalizePath (value : String) : String :=
  let text := portable value
  let relative := if ['.', '/'] <+: text then text.drop 2 else text
  .ofList (relative.rdropWhile (· = '/'))

/-- `normalizeRule`. -/
def normalizeRule (rule : RelativePath) : String := normalizePath rule.text

/-- `matchesRule`. -/
def matchesRule (candidate rule : String) : Bool :=
  candidate = rule || (rule.toList ++ ['/']).isPrefixOf candidate.toList

/-- The violations of one normalized path, in the order they are reported. -/
def pathViolations (scope : JobScope) (changedPath : String) : List ScopeViolation :=
  (if scope.allowedPaths ≠ [] ∧
      ∀ rule ∈ scope.allowedPaths, matchesRule changedPath (normalizeRule rule) = false then
    [⟨changedPath, .outsideAllowed, "<allowedPaths>"⟩] else []) ++
  (scope.forbiddenPaths.filter fun rule ↦ matchesRule changedPath (normalizeRule rule)).map
    (fun rule ↦ ⟨changedPath, .forbidden, normalizeRule rule⟩) ++
  (scope.protectedPaths.filter fun rule ↦ matchesRule changedPath (normalizeRule rule)).map
    (fun rule ↦ ⟨changedPath, .protectedPath, normalizeRule rule⟩)

/-- The UTF-16 code units `Array.prototype.sort` compares strings by. -/
def codeUnits (value : String) : List ℕ :=
  value.toList.flatMap fun c ↦
    if c.toNat < 0x10000 then [c.toNat]
    else [0xD800 + (c.toNat - 0x10000) / 0x400, 0xDC00 + (c.toNat - 0x10000) % 0x400]

/-- `array.sort()`. -/
def sortStrings (values : List String) : List String :=
  values.mergeSort fun a b ↦ codeUnits a ≤ codeUnits b

theorem mem_sortStrings {texts : List String} {text : String} :
    text ∈ sortStrings texts ↔ text ∈ texts := List.mem_mergeSort

/-- `allowed.length + forbidden.length + protectedPaths.length > 0`. -/
def JobScope.configured (scope : JobScope) : Bool :=
  0 < scope.allowedPaths.length + scope.forbiddenPaths.length + scope.protectedPaths.length

/-- `[...new Set(changedPaths.map(normalizePath))].sort()`. -/
def normalizedPaths (changedPaths : List String) : List String :=
  sortStrings (changedPaths.map normalizePath).eraseDups

/-- `evaluatePathScope`. -/
def evaluatePathScope (changedPaths : List String) (scope : JobScope) : ScopeRecord :=
  let normalized := normalizedPaths changedPaths
  let violations := normalized.flatMap (pathViolations scope)
  { status :=
      if 0 < violations.length then .failed
      else if scope.configured then .passed
      else .notConfigured
    changedPaths := normalized
    violations := violations }

/-! ### What the rules mean -/

/-- A path git lists: relative, its segments neither empty nor dots, and without NUL. -/
structure TreePath where
  text : String
  segments_ne : ∀ segment ∈ text.toList.splitOn '/',
    segment ≠ [] ∧ segment ≠ ['.'] ∧ segment ≠ ['.', '.']
  nul_notMem : '\x00' ∉ text.toList
  deriving DecidableEq

/-- The path's segments. -/
def TreePath.segments (path : TreePath) : List (List Char) := path.text.toList.splitOn '/'

/-- The nonempty segments of a rule. -/
def RelativePath.segments (rule : RelativePath) : List (List Char) :=
  List.segmentsOn '/' (portable rule.text)

/-- The path is the file or under the directory the rule names. -/
def TreePath.Within (path : TreePath) (rule : RelativePath) : Prop :=
  rule.segments <+: path.segments

instance (path : TreePath) (rule : RelativePath) : Decidable (path.Within rule) :=
  inferInstanceAs (Decidable (rule.segments <+: path.segments))

/-- The path is outside what the scope allows. -/
def JobScope.Violates (scope : JobScope) (path : TreePath) : Prop :=
  (scope.allowedPaths ≠ [] ∧ ∀ rule ∈ scope.allowedPaths, ¬path.Within rule) ∨
    ∃ rule ∈ scope.forbiddenPaths ++ scope.protectedPaths, path.Within rule

/-- One entry for each rule the path violates. -/
def JobScope.violations (scope : JobScope) (path : TreePath) : List ScopeViolation :=
  (if scope.allowedPaths ≠ [] ∧ ∀ rule ∈ scope.allowedPaths, ¬path.Within rule then
    [⟨path.text, .outsideAllowed, "<allowedPaths>"⟩] else []) ++
  (scope.forbiddenPaths.filter fun rule ↦ path.Within rule).map
    (fun rule ↦ ⟨path.text, .forbidden, normalizeRule rule⟩) ++
  (scope.protectedPaths.filter fun rule ↦ path.Within rule).map
    (fun rule ↦ ⟨path.text, .protectedPath, normalizeRule rule⟩)

/-- The evaluation of the scope says what the rules mean. -/
structure ScopeSemantics (changed : List TreePath) (scope : JobScope) : Prop where
  failed : (evaluatePathScope (changed.map TreePath.text) scope).status = .failed ↔
    ∃ path ∈ changed, scope.Violates path
  passed : (evaluatePathScope (changed.map TreePath.text) scope).status = .passed ↔
    (∀ path ∈ changed, ¬scope.Violates path) ∧ scope.configured = true
  notConfigured : (evaluatePathScope (changed.map TreePath.text) scope).status = .notConfigured ↔
    scope.configured = false
  violations : (evaluatePathScope (changed.map TreePath.text) scope).violations.Perm
    (changed.dedup.flatMap scope.violations)

/-- The rule has an inner `//`, or `\\` in place of it. -/
def RelativePath.Doubled (rule : RelativePath) : Prop :=
  [] ∈ (normalizeRule rule).toList.splitOn '/'

instance (rule : RelativePath) : Decidable rule.Doubled :=
  inferInstanceAs (Decidable ([] ∈ (normalizeRule rule).toList.splitOn '/'))

/-- A rule with an inner `//` makes no difference to the path. -/
def JobScope.Undoubled (scope : JobScope) (path : TreePath) : Prop :=
  (∀ rule ∈ scope.forbiddenPaths ++ scope.protectedPaths, path.Within rule → ¬rule.Doubled) ∧
    ((∃ rule ∈ scope.allowedPaths, path.Within rule) →
      ∃ rule ∈ scope.allowedPaths, path.Within rule ∧ ¬rule.Doubled)

/-- The text matches no forbidden or protected rule, and an allowed one if there are any. -/
def JobScope.Admits (scope : JobScope) (text : String) : Prop :=
  (∀ rule ∈ scope.forbiddenPaths ++ scope.protectedPaths,
    matchesRule text (normalizeRule rule) = false) ∧
    (scope.allowedPaths ≠ [] →
      ∃ rule ∈ scope.allowedPaths, matchesRule text (normalizeRule rule) = true)

/-- The path is read as it is: no rule with an inner `//` makes a difference to it, and a backslash
in its name makes none. -/
def JobScope.ReadsAsGiven (scope : JobScope) (changed : List TreePath) (path : TreePath) : Prop :=
  if '\\' ∈ path.text.toList then
    ¬scope.Violates path ∧
      (scope.Admits (normalizePath path.text) ∨
        ∃ other ∈ changed, other.text = normalizePath path.text)
  else scope.Undoubled path

end CodeConductor
