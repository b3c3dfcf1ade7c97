import CodeConductor.FileSystem.Directories
import CodeConductor.Provider.Request
import CodeConductor.Verification.Utf8

/-!
# The tools of a provider

What a provider may do to the workspace: read a selected file and write an allowed one. A call names
its path by a text; the text is compared with the selection, and then it is a path in a file tree
that may hold links anywhere.

`process.pid` is a number of the scope. `JSON.parse` of the arguments is the parameter `parse`:
nothing below depends on how a text is read. The tree refuses nothing but what its nodes refuse.
-/

namespace CodeConductor

/-! ### Paths -/

/-- The segments of a normalized path. -/
def segmentsOf (relative : String) : List String := (relative.toList.splitOn '/').map String.ofList

/-- The segments of `path.relative(from, to)`, of two absolute paths. -/
def relativeSegments : NodePath → NodePath → List String
  | a :: up, b :: down =>
    if a = b then relativeSegments up down
    else List.replicate (up.length + 1) ".." ++ b :: down
  | up, down => List.replicate up.length ".." ++ down

/-- `assertWithin`: the relative path does not start with two dots. -/
def assertWithin (workspaceRoot target : NodePath) : Bool :=
  match relativeSegments workspaceRoot target with
  | [] => true
  | segment :: _ => !(List.isPrefixOf ['.', '.'] segment.toList)

/-! ### The scope -/

/-- The workspace a worker resolved and the paths selected for it, with `process.pid`. -/
structure ToolScope where
  workspaceRoot : NodePath
  readablePaths : List String
  writablePaths : List String
  maxBytes : ℕ
  pid : ℕ
  deriving DecidableEq, Repr

/-- The scope of a request, if its paths are valid. -/
def toolScope (request : ProviderRequest) (workspaceRoot : NodePath) (pid : ℕ) : Option ToolScope := do
  let readablePaths ← (request.contextRefs ++ request.allowedPaths).mapM normalizeRelativePath
  let writablePaths ← request.allowedPaths.mapM normalizeRelativePath
  return {
    workspaceRoot, readablePaths, writablePaths
    maxBytes := request.profile.budget.maxToolOutputBytes
    pid }

/-- `path.resolve(workspaceRoot, relative)`. -/
def ToolScope.locationOf (scope : ToolScope) (relative : String) : NodePath :=
  scope.workspaceRoot ++ segmentsOf relative

/-! ### A call -/

/-- What a call asks for, once its arguments are accepted. -/
inductive ToolAction where
  | readFile (relative : String)
  | writeFile (relative : String) (content : String)
  deriving DecidableEq, Repr

/-- What `executeToolCall` returns; `content` says which file it is the content of. -/
inductive ToolResult where
  | refused (output : String)
  | content (target : NodePath) (output : String)
  | wrote (output : String)
  deriving DecidableEq, Repr

/-- The text given back to the provider. -/
def ToolResult.output : ToolResult → String
  | refused output | content _ output | wrote output => output

/-- The text of a call that threw. -/
def refusedPath (name : String) : String :=
  "tool error: " ++ name ++ " refused the requested path"

/-- `Object.keys(args).length`. -/
def keyCount (args : List (String × Json)) : ℕ := (args.map Prod.fst).dedup.length

/-- The path of a call, in a selection. -/
def scopedPath (name path : String) (paths : List String) : Except String String :=
  match normalizeRelativePath path with
  | none => .error (refusedPath name)
  | some relative =>
    if relative ∈ paths then .ok relative
    else .error ("tool error: path out of scope: " ++ relative)

/-- `executeToolCall` up to its first look at the file system. -/
def checkToolCall (parse : String → Option Json) (scope : ToolScope) (call : FunctionCall) :
    Except String ToolAction :=
  match Json.objectRecord (parse call.arguments) with
  | none => .error "tool error: arguments must be a JSON object"
  | some args =>
    let path := Json.text (Json.field args "path")
    let content := Json.text (Json.field args "content")
    if call.name = "read_file" then
      match path with
      | some path =>
        if keyCount args = 1 then (scopedPath call.name path scope.readablePaths).map .readFile
        else .error "tool error: read_file requires only a string path"
      | none => .error "tool error: read_file requires only a string path"
    else if call.name = "write_file" then
      match path, content with
      | some path, some content =>
        if keyCount args = 2 then do
          let relative ← scopedPath call.name path scope.writablePaths
          if scope.maxBytes < (Utf8.encode content.toList).length then
            .error "tool error: content exceeds tool byte ceiling"
          else .ok (.writeFile relative content)
        else .error "tool error: write_file requires only string path and content"
      | _, _ => .error "tool error: write_file requires only string path and content"
    else .error ("tool error: unknown tool " ++ call.name)

/-- What the operations on the workspace throw. -/
inductive ToolError where
  | fileSystem (error : FsError)
  | escapesWorkspace
  | symlinkTarget
  | notFile
  deriving DecidableEq, Repr

/-- `resolveExistingFile`, with the bytes of the file. -/
def resolveExistingFile (tree : FileTree) (scope : ToolScope) (relative : String) :
    Except ToolError (NodePath × List UInt8) :=
  match tree.realpath (scope.locationOf relative) with
  | .error error => .error (.fileSystem error)
  | .ok target =>
    if assertWithin scope.workspaceRoot target then
      match tree.node target with
      | some (.file bytes) => .ok (target, bytes)
      | _ => .error .notFile
    else .error .escapesWorkspace

/-- The name of the temporary file of a write. -/
def temporaryName (scope : ToolScope) (name : String) : String :=
  name ++ ".conductor-openai-" ++ toString scope.pid ++ ".tmp"

/-- The part of `atomicScopedWrite` after the directory was made: `existsSync`, `lstatSync` and the
replacement. Nothing in it changes how the parent resolves, to `parent`. -/
def writeScoped (tree : FileTree) (scope : ToolScope) (target : List String) (parent : NodePath)
    (content : String) : Except ToolError Unit × FileTree :=
  let name := target.getLastD ""
  let replaced :=
    tree.replace parent (temporaryName scope name) name (Utf8.encode content.toList)
  let write : Except ToolError Unit × FileTree :=
    (replaced.1.mapError .fileSystem, replaced.2)
  match tree.realpath target with
  | .error _ => write
  | .ok resolved =>
    match tree.node (parent ++ [name]) with
    | some (.symlink ..) => (.error .symlinkTarget, tree)
    | _ =>
      if assertWithin scope.workspaceRoot resolved then write else (.error .escapesWorkspace, tree)

/-- `atomicScopedWrite`. -/
def atomicScopedWrite (tree : FileTree) (scope : ToolScope) (relative content : String) :
    Except ToolError Unit × FileTree :=
  let target := scope.locationOf relative
  if assertWithin scope.workspaceRoot target then
    match tree.makeDirectories target.dropLast.reverse with
    | (.error error, tree') => (.error (.fileSystem error), tree')
    | (.ok (), tree') =>
      match tree'.realpath target.dropLast with
      | .error error => (.error (.fileSystem error), tree')
      | .ok parent =>
        if assertWithin scope.workspaceRoot parent then
          writeScoped tree' scope target parent content
        else (.error .escapesWorkspace, tree')
  else (.error .escapesWorkspace, tree)

/-- What is returned of a write that ended so. -/
def writeResult (name relative : String) : Except ToolError Unit → ToolResult
  | .ok () => .wrote ("wrote " ++ relative)
  | .error _ => .refused (refusedPath name)

/-- `executeToolCall`. -/
def executeToolCall (parse : String → Option Json) (scope : ToolScope) (tree : FileTree)
    (call : FunctionCall) : ToolResult × FileTree :=
  match checkToolCall parse scope call with
  | .error output => (.refused output, tree)
  | .ok (.readFile relative) =>
    match resolveExistingFile tree scope relative with
    | .error _ => (.refused (refusedPath call.name), tree)
    | .ok (target, bytes) =>
      if scope.maxBytes < bytes.length then
        (.refused "tool error: file exceeds tool byte ceiling", tree)
      else (.content target (.ofList (Utf8.decode bytes)), tree)
  | .ok (.writeFile relative content) =>
    let written := atomicScopedWrite tree scope relative content
    (writeResult call.name relative written.1, written.2)

end CodeConductor
