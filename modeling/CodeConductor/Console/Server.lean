import CodeConductor.Async.Part
import CodeConductor.Json.Canonical
import CodeConductor.Settings.Store

/-!
# Mutations through the console

The console answers `POST` requests: to cancel or retry a job, to update the settings, to load or
unload the model. A request carries an **idempotency key**. A key that is remembered, for this
mutation, is answered with what is remembered; a key that is not is remembered with the result once
the operation has succeeded, for `IDEMPOTENCY_TTL_MS`. What is remembered is in the memory of the
server.

The dispatcher, the settings store and the model service are behind `ConsoleDependencies`: each of
their operations is a computation over a state `D` of their own, which takes as many steps as it
likes. `route` is the handler; the requests interleave between its steps.

## What is left out

The pages and snapshots of `GET` requests, and the sessions: the tokens are those the server has. The
clock does not run backwards.
-/

namespace CodeConductor

open Async Async.Prog

/-- `JSON.stringify`: the members of an object in the order they have. -/
def stringifyJson (value : JsonValue) : List Char := canonicalJson (fun _ _ ↦ true) value

/-! ### Requests and errors -/

/-- What a dependency throws. -/
inductive DependencyError where
  | settings (error : SettingsError)
  | other (message : String)
  deriving DecidableEq, Repr

/-- What a handler throws: an `HttpError`, or the error of a dependency. -/
inductive ConsoleError where
  | http (status : ℕ) (message : String)
  | dependency (error : DependencyError)
  deriving DecidableEq, Repr

/-- The status of an error. -/
def ConsoleError.status : ConsoleError → ℕ
  | http status _ => status
  | dependency (.settings (.revisionConflict ..)) => 409
  | dependency _ => 500

/-- The message of an error. -/
def ConsoleError.message : ConsoleError → String
  | http _ message => message
  | dependency (.settings error) => error.message
  | dependency (.other message) => message

/-- A `POST` request; `body` is what `readJsonBody` reads of it. -/
structure ConsoleRequest where
  pathname : String
  origin : Option String
  contentType : Option String
  body : Except ConsoleError JsonObject

/-- What is sent: a result with status 200, or `{ error }`. -/
inductive ConsoleResponse where
  | result (body : JsonValue)
  | error (status : ℕ) (message : String)

/-! ### The dependencies -/

/-- A computation of a dependency. -/
abbrev DependencyProg (D A : Type) := Prog Unit D Empty DependencyError A

/-- `ModelServiceRecord`, as far as the console looks at it. -/
structure ModelRecord where
  state : String
  /-- The kind and the status of the operation. -/
  operation : Option (String × String)
  /-- The kind and the message of the failure. -/
  failure : Option (String × String)
  /-- `publicModel(record, canUnload)`. -/
  publicModel : Bool → JsonValue

/-- `ModelServiceManager`. -/
structure ModelService (D : Type) where
  /-- `state()?.revision ?? 0`. -/
  revision : D → ℕ
  canUnload : D → Bool
  ensureReady : DependencyProg D ModelRecord
  stop : DependencyProg D ModelRecord

/-- `ControlConsoleDependencies`, with what the server takes from the language. -/
structure ConsoleDependencies (D : Type) where
  /-- The origin of the server. -/
  origin : String
  queueControlAuthority : Bool
  /-- `dispatcher.get`: the id and the revision of the item. -/
  getItem : String → DependencyProg D (String × ℕ)
  cancel : String → DependencyProg D JsonValue
  retry : String → DependencyProg D JsonValue
  validateSettings : Option JsonValue → Except DependencyError ConsoleSettings
  /-- `settingsStore.update`. -/
  updateSettings : ConsoleSettings → Int → DependencyProg D JsonValue
  modelService : Option (ModelService D)
  /-- The value of a number, if it is a safe integer. -/
  safeInteger : JsonNumber → Option Int

/-! ### The state of the server -/

/-- `IDEMPOTENCY_TTL_MS`. -/
def idempotencyTtl : ℕ := 600000

/-- What is remembered for a key. -/
structure IdempotencyEntry where
  expiresAt : Timestamp
  fingerprint : List Char
  body : JsonValue

/-- The underlying operation of a request was called. -/
structure OperationCall where
  call : ℕ
  key : String
  fingerprint : List Char
  time : Timestamp

/-- A result was remembered, or sent. -/
structure MutationResult extends OperationCall where
  body : JsonValue

/-- The memory of the server, the clock and the dependencies.

The last four fields are a history no handler reads: the requests that found no entry and are not
answered yet, with their keys; the operations called; the results remembered; and those sent. -/
structure ConsoleState (D : Type) where
  idempotency : List (String × IdempotencyEntry) := []
  csrfTokens : List (String × Timestamp) := []
  now : Timestamp := 0
  dependencies : D
  pending : List (ℕ × String) := []
  executed : List OperationCall := []
  stored : List MutationResult := []
  sent : List MutationResult := []

/-- The atomic steps of the requests. -/
inductive ConsoleStep where
  | readBody | authorize
  /-- The key is looked up. -/
  | lookup (key : String)
  /-- The revision of the model is compared. -/
  | compare
  /-- The underlying operation is called. -/
  | execute
  | dependency | inspect
  /-- The result is remembered and sent. -/
  | settle
  /-- An error is sent. -/
  | fail
  | tick
  deriving DecidableEq, Repr

/-- The calls: a request, and the passing of time. -/
inductive ConsoleCall where
  | post (request : ConsoleRequest)
  | wait

section

variable {D : Type}

/-- A computation of the server. -/
abbrev ConsoleProg (D A : Type) := Prog ConsoleStep (ConsoleState D) ConsoleCall ConsoleError A

/-! ### Reading the request -/

/-- `requiredString`. -/
def requiredString (value : Option JsonValue) (name : String) : Except ConsoleError String :=
  match value with
  | some (.string text) =>
    if text = "" then .error (.http 400 (name ++ " must be a non-empty string")) else .ok text
  | _ => .error (.http 400 (name ++ " must be a non-empty string"))

/-- `requiredInteger`. -/
def requiredInteger (deps : ConsoleDependencies D) (value : Option JsonValue) (name : String) :
    Except ConsoleError Int :=
  match value with
  | some (.number number) =>
    match deps.safeInteger number with
    | some integer => .ok integer
    | none => .error (.http 400 (name ++ " must be an integer"))
  | _ => .error (.http 400 (name ++ " must be an integer"))

/-- `mutationFingerprint`. -/
def mutationFingerprint (pathname : String) (body : JsonObject) : List Char :=
  stringifyJson (.object
    [("route", .string pathname),
      ("operation", .object (body.members.filter fun member ↦
        member.1 ≠ "csrfToken" && member.1 ≠ "idempotencyKey"))])

/-- `prune`. -/
def ConsoleState.pruneTokens (s : ConsoleState D) : ConsoleState D :=
  { s with csrfTokens := s.csrfTokens.filter fun token ↦ s.now < token.2 }

/-- The end of `authorizeMutation`: the token of the body is one of the server. -/
def ConsoleState.authorize (s : ConsoleState D) (body : JsonObject) :
    Except ConsoleError Unit × ConsoleState D :=
  let pruned := s.pruneTokens
  let checked := do
    let token ← requiredString (body.get "csrfToken") "csrfToken"
    if ((pruned.csrfTokens.find? (·.1 = token)).elim 0 Prod.snd) ≤ s.now then
      .error (.http 403 "CSRF token is missing or expired")
    else .ok ()
  (checked, pruned)

/-- `authorizeMutation`. -/
def authorizeMutation (deps : ConsoleDependencies D) (request : ConsoleRequest) :
    ConsoleProg D JsonObject := do
  ofResult (throwUnless (request.origin.all (· = deps.origin))
    (.http 403 "Foreign Origin is not permitted"))
  ofResult (throwUnless
    (request.contentType.any fun text ↦
      text.toList.takeWhile (· ≠ ';') = "application/json".toList)
    (.http 415 "Mutations require application/json"))
  let body ← Prog.read .readBody fun _ ↦ request.body
  atomic .authorize fun s ↦ s.authorize body
  return body

/-! ### Remembering -/

/-- `pruneIdempotency`. -/
def ConsoleState.pruneEntries (s : ConsoleState D) : ConsoleState D :=
  { s with idempotency := s.idempotency.filter fun entry ↦ s.now < entry.2.expiresAt }

/-- `idempotency.get`. -/
def ConsoleState.entry (s : ConsoleState D) (key : String) : Option IdempotencyEntry :=
  (s.idempotency.find? (·.1 = key)).map Prod.snd

/-- The look-up of a request: what is remembered is sent, and a request that finds nothing is on its
way. -/
def ConsoleState.lookup (s : ConsoleState D) (call : ℕ) (key : String) (fingerprint : List Char) :
    Except ConsoleError (Option JsonValue) × ConsoleState D :=
  let pruned := s.pruneEntries
  match pruned.entry key with
  | some replay =>
    if replay.fingerprint ≠ fingerprint then
      (.error (.http 409 "Idempotency key was already bound to a different mutation"), pruned)
    else
      (.ok (some replay.body),
        { pruned with sent := ⟨⟨call, key, fingerprint, s.now⟩, replay.body⟩ :: s.sent })
  | none => (.ok none, { pruned with pending := (call, key) :: s.pending })

/-- The call of the underlying operation. -/
def ConsoleState.execute (s : ConsoleState D) (call : ℕ) (key : String)
    (fingerprint : List Char) : ConsoleState D :=
  { s with executed := ⟨call, key, fingerprint, s.now⟩ :: s.executed }

/-- The end of a request whose operation succeeded: `idempotency.set` and `sendJson`. -/
def ConsoleState.settle (s : ConsoleState D) (call : ℕ) (key : String) (fingerprint : List Char)
    (body : JsonValue) : ConsoleState D :=
  { s with
    idempotency := s.idempotency.filter (·.1 ≠ key) ++
      [(key, ⟨s.now + idempotencyTtl, fingerprint, body⟩)]
    pending := s.pending.filter (·.1 ≠ call)
    stored := ⟨⟨call, key, fingerprint, s.now⟩, body⟩ :: s.stored
    sent := ⟨⟨call, key, fingerprint, s.now⟩, body⟩ :: s.sent }

/-- The end of a request that failed. -/
def ConsoleState.fail (s : ConsoleState D) (call : ℕ) : ConsoleState D :=
  { s with pending := s.pending.filter (·.1 ≠ call) }

/-! ### The operations -/

/-- Run a computation of a dependency. -/
def callDependency {A : Type} (prog : DependencyProg D A) : ConsoleProg D A :=
  ((prog.mapError ConsoleError.dependency).onPart (fun _ ↦ .dependency) ConsoleState.dependencies
    fun s d ↦ { s with dependencies := d })

/-- Call the underlying operation of a request. -/
def executeOperation {A : Type} (call : ℕ) (key : String) (fingerprint : List Char)
    (prog : DependencyProg D A) : ConsoleProg D A := do
  modify .execute fun s ↦ s.execute call key fingerprint
  callDependency prog

/-- `requireQueueControlAuthority`. -/
def requireQueueControlAuthority (deps : ConsoleDependencies D) : Except ConsoleError Unit :=
  throwUnless deps.queueControlAuthority
    (.http 409 "Queue control is owned by another Conductor dispatcher process")

/-- `expectedQueueItem`: the id of the item. -/
def expectedQueueItem (deps : ConsoleDependencies D) (body : JsonObject) :
    ConsoleProg D String := do
  let jobId ← ofResult (requiredString (body.get "jobId") "jobId")
  let expected ← ofResult (requiredInteger deps (body.get "expectedRevision") "expectedRevision")
  let item ← callDependency (deps.getItem jobId)
  if (item.2 : Int) ≠ expected then
    throw (.http 409 ("Queue item " ++ jobId ++ " changed from revision " ++ toString expected ++
      " to " ++ toString item.2))
  else return item.1

/-- `requireModelManager`. -/
def requireModelManager (deps : ConsoleDependencies D) : Except ConsoleError (ModelService D) :=
  match deps.modelService with
  | some manager => .ok manager
  | none => .error (.http 409 "Model service is not configured")

/-- `assertModelRevision`. -/
def assertModelRevision (deps : ConsoleDependencies D) (manager : ModelService D)
    (body : JsonObject) : ConsoleProg D Unit := do
  let expected ← ofResult (requiredInteger deps (body.get "expectedRevision") "expectedRevision")
  Prog.read .compare fun s ↦
    let actual := manager.revision s.dependencies
    throwUnless ((actual : Int) = expected)
      (.http 409 ("Model state changed from revision " ++ toString expected ++ " to " ++
        toString actual))

/-- `modelTransitionError`. -/
def modelTransitionError (record : ModelRecord) : ConsoleError :=
  .http
    (if record.failure.any fun failure ↦
        ["wrong-model", "context-unverified", "stop-refused"].contains failure.1 then 409 else 503)
    (record.failure.elim ("Model transition ended in " ++ record.state) Prod.snd)

/-- The mutation of a route: the `if` chain of `route`. -/
def mutate (deps : ConsoleDependencies D) (call : ℕ) (key : String) (fingerprint : List Char)
    (pathname : String) (body : JsonObject) : ConsoleProg D JsonValue :=
  if pathname = "/api/v1/queue/cancel" then do
    ofResult (requireQueueControlAuthority deps)
    let jobId ← expectedQueueItem deps body
    let item ← executeOperation call key fingerprint (deps.cancel jobId)
    return .object [("item", item)]
  else if pathname = "/api/v1/queue/retry" then do
    ofResult (requireQueueControlAuthority deps)
    let jobId ← expectedQueueItem deps body
    let item ← executeOperation call key fingerprint (deps.retry jobId)
    return .object [("item", item)]
  else if pathname = "/api/v1/settings" then do
    let expected ← ofResult (requiredInteger deps (body.get "expectedRevision") "expectedRevision")
    let settings ← ofResult ((deps.validateSettings (body.get "settings")).mapError .dependency)
    let document ← executeOperation call key fingerprint (deps.updateSettings settings expected)
    return .object [("document", document),
      ("appliesTo", .string "future-transitions; bind changes require console restart")]
  else if pathname = "/api/v1/model/load" then do
    let manager ← ofResult (requireModelManager deps)
    assertModelRevision deps manager body
    let record ← executeOperation call key fingerprint manager.ensureReady
    if record.state ≠ "ready" then throw (modelTransitionError record)
    else Prog.read .inspect fun s ↦
      .ok (.object [("model", record.publicModel (manager.canUnload s.dependencies))])
  else if pathname = "/api/v1/model/unload" then do
    let manager ← ofResult (requireModelManager deps)
    assertModelRevision deps manager body
    let record ← executeOperation call key fingerprint manager.stop
    if record.state ≠ "offline" || record.operation ≠ some ("stop", "completed") then
      throw (modelTransitionError record)
    else return .object [("model", record.publicModel false)]
  else throw (.http 404 "Not found")

/-! ### The handler -/

/-- A request that found no entry: the operation, and the end of the request. -/
def settleMutation (deps : ConsoleDependencies D) (call : ℕ) (key : String)
    (fingerprint : List Char) (pathname : String) (body : JsonObject) :
    ConsoleProg D ConsoleResponse := do
  let result ← mutate deps call key fingerprint pathname body
  modify .settle fun s ↦ s.settle call key fingerprint result
  return .result result

/-- `route`, for a `POST` request. -/
def route (deps : ConsoleDependencies D) (call : ℕ) (request : ConsoleRequest) :
    ConsoleProg D ConsoleResponse := do
  let body ← authorizeMutation deps request
  let key ← ofResult (requiredString (body.get "idempotencyKey") "idempotencyKey")
  let replay ← atomic (.lookup key) fun s ↦
    s.lookup call key (mutationFingerprint request.pathname body)
  match replay with
  | some result => return .result result
  | none =>
    settleMutation deps call key (mutationFingerprint request.pathname body) request.pathname body

/-- The listener of `createServer`: an error of `route` is sent. -/
def handle (deps : ConsoleDependencies D) (call : ℕ) (request : ConsoleRequest) :
    ConsoleProg D ConsoleResponse :=
  tryCatch (route deps call request) fun error ↦ do
    modify .fail fun s ↦ s.fail call
    return .error error.status error.message

/-- One server. It starts anew after a crash, and remembers nothing. -/
def consoleSystem (deps : ConsoleDependencies D) :
    System ConsoleStep (ConsoleState D) ConsoleCall ConsoleError (Option ConsoleResponse)
      Unit where
  body _ call
    | .post request => (handle deps call request).bind fun response ↦ .ret (.ok (some response))
    | .wait => (modify .tick fun s ↦ { s with now := s.now + 1 }).bind fun _ ↦ .ret (.ok none)
  entry _ _ _ := true
  crash _ s := { now := s.now, dependencies := s.dependencies }

end

end CodeConductor
