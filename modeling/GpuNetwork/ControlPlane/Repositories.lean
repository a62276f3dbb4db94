import GpuNetwork.ControlPlane.Api

/-!
# Repositories

The statements of `app/repositories`, each a small `Handler`.  The object mapper's part
is explicit: a flush writes the columns in which an object differs from the row it was
loaded from, issues no statement when there are none, and raises when no row matched.
-/

namespace GpuNetwork

open ReadCommitted

/-! ## The session -/

/-- A freshly drawn `uuid4()`. -/
def uuid4 : Handler Uuid := .exec .random

/-- `datetime.now(UTC)`. -/
def utcNow : Handler Time := .exec .now

/-- `session.commit()`. -/
def commit : Handler Unit := .exec .commit

/-- `session.flush()` with one object that was loaded as `old` and is now `new`. -/
def flush (old new : Row) : Handler Unit :=
  if new = old then pure ()
  else do
    let matched ← .exec (.update old new)
    if matched then pure () else .throw .staleData

/-- `session.refresh(obj)`. -/
def refresh (k : Key) : Handler Row := do
  match ← .exec (.select (.byKey k)) with
  | some r => pure r
  | none => .throw .refreshFailed

def refreshUser (id : Uuid) : Handler User := do
  match ← refresh (.user id) with
  | .user u => pure u
  | _ => .throw .refreshFailed

def refreshNode (id : Uuid) : Handler Node := do
  match ← refresh (.node id) with
  | .node n => pure n
  | _ => .throw .refreshFailed

def refreshJob (id : Uuid) : Handler Job := do
  match ← refresh (.job id) with
  | .job j => pure j
  | _ => .throw .refreshFailed

/-! ## Pages -/

/-- `decode_cursor(cursor) if cursor else None`, as the query compares with it: the driver
takes the time to UTC, which fails outside the years of the calendar. -/
def cursorBound (app : App) : Option Str → Handler (Option (Time × Uuid))
  | none => pure none
  | some [] => pure none
  | some (c :: cs) =>
    match decodeCursor app.jsonNesting (c :: cs) with
    | .ok (ts, id) =>
      let instant := ts.instant?.getD (app.localInstant ts.wall)
      if Text.InRange instant then pure (some (instant, id)) else .throw .dateOutOfRange
    | .error .invalidCursor => .throw .invalidPaginationCursor
    | .error .attributeError => .throw .attributeError
    | .error .recursionError => .throw .recursionError

/-- The cursor of the last row, when the page is full. -/
def nextCursor (limit : Nat) (rows : List (Time × Uuid)) : Option Str :=
  if rows.length = limit then rows.getLast?.map fun r => encodeCursor (.utc r.1) r.2 else none

/-! ## `UserRepository` -/

def createUser (email passwordHash : Str) : Handler User := do
  let id ← uuid4
  let createdAt ← .exec .txTime
  let user : User := { id, email, passwordHash, createdAt }
  .exec (.insert (.user user))
  pure user

def selectUser (w : Cond) : Handler (Option User) := do
  match ← .exec (.select w) with
  | some (.user u) => pure (some u)
  | _ => pure none

def getUserByEmail (email : Str) : Handler (Option User) := selectUser (.userByEmail email)

def getUserById (userId : Uuid) : Handler (Option User) := selectUser (.byKey (.user userId))

/-! ## `AuditRepository` -/

def createAudit (eventType : Event) (userId : Option Uuid) (eventData : EventData := {})
    (client : Client := {}) : Handler Unit := do
  let id ← uuid4
  let createdAt ← .exec .txTime
  .exec (.insert (.auditLog
    { id, userId, eventType, eventData, ipAddress := client.ipAddress,
      userAgent := client.userAgent, createdAt }))

/-- The driver does not send a text with a NUL. -/
def sendTexts (texts : List Str) : Handler Unit :=
  if texts.all plainText then pure () else .throw (.database .nulCharacter)

/-- The e-mail address the outer join finds for an audit row. -/
def joinedEmail (users : List Row) (a : AuditLog) : Option Str :=
  users.findSome? fun r =>
    match r with
    | .user u => if a.userId = some u.id then some u.email else none
    | _ => none

/-- `list_filtered`.  The outer join is read in two statements. -/
def listAudit (app : App) (f : AuditFilter) (cursor : Option (Time × Uuid)) (limit : Nat) :
    Handler (List (AuditLog × Option Str)) := do
  sendTexts f.texts
  let query := f.userEmail.getD []
  let users ← .exec (.selectAll (.usersLike app.lower query))
  let rows ← .exec (.selectAll (.auditPage f cursor))
  let joined := rows.filterMap fun r =>
    match r with
    | .auditLog a =>
      match joinedEmail users a with
      | some email => some (a, some email)
      | none => if query = [] then some (a, none) else none
    | _ => none
  pure (joined.take limit)

/-! ## `ApiKeyRepository` -/

def createApiKeyRow (userId : Uuid) (name lookupPrefix hash : Str) : Handler ApiKey := do
  let id ← uuid4
  let createdAt ← .exec .txTime
  let apiKey : ApiKey := { id, userId, name, lookupPrefix, hash, createdAt }
  .exec (.insert (.apiKey apiKey))
  pure apiKey

def selectApiKey (w : Cond) : Handler (Option ApiKey) := do
  match ← .exec (.select w) with
  | some (.apiKey k) => pure (some k)
  | _ => pure none

def getApiKeyById (apiKeyId : Uuid) : Handler (Option ApiKey) :=
  selectApiKey (.byKey (.apiKey apiKeyId))

def getApiKeyByPrefix (lookupPrefix : Str) : Handler (Option ApiKey) :=
  selectApiKey (.apiKeyByPrefix lookupPrefix)

def revokeApiKeyRow (apiKey : ApiKey) : Handler Unit := do
  let now ← utcNow
  flush (.apiKey apiKey) (.apiKey { apiKey with revokedAt := some now })

/-! ## `ClaimTokenRepository` -/

def createClaimTokenRow (userId : Uuid) (lookupPrefix tokenHash : Str) (expiresAt : Time) :
    Handler ClaimToken := do
  let id ← uuid4
  let createdAt ← .exec .txTime
  let claim : ClaimToken := { id, userId, lookupPrefix, tokenHash, expiresAt, createdAt }
  .exec (.insert (.claimToken claim))
  pure claim

def getClaimTokenByPrefix (lookupPrefix : Str) : Handler (Option ClaimToken) := do
  match ← .exec (.select (.claimTokenByPrefix lookupPrefix)) with
  | some (.claimToken c) => pure (some c)
  | _ => pure none

def markConsumed (claim : ClaimToken) : Handler Unit := do
  let now ← utcNow
  flush (.claimToken claim) (.claimToken { claim with consumedAt := some now })

/-! ## `NodeRepository` -/

def createNode (userId : Uuid) (name gpuModel : Str) (gpuMemoryGb gpuCount : Int)
    (agentTokenPrefix agentTokenHash : Str) (lastSeenAt : Time) : Handler Node := do
  let id ← uuid4
  let createdAt ← .exec .txTime
  let node : Node :=
    { id, userId, name, gpuModel, gpuMemoryGb, gpuCount, status := .online,
      lastSeenAt := some lastSeenAt, agentTokenHash := some agentTokenHash,
      agentTokenPrefix := some agentTokenPrefix, createdAt }
  .exec (.insert (.node node))
  pure node

def selectNode (w : Cond) : Handler (Option Node) := do
  match ← .exec (.select w) with
  | some (.node n) => pure (some n)
  | _ => pure none

def getNodeById (nodeId : Uuid) : Handler (Option Node) := selectNode (.byKey (.node nodeId))

def getNodeByAgentPrefix (lookupPrefix : Str) : Handler (Option Node) :=
  selectNode (.nodeByAgentPrefix lookupPrefix)

def updateLastSeen (node : Node) : Handler Unit := do
  let now ← utcNow
  flush (.node node) (.node { node with lastSeenAt := some now })

def setNodeStatus (node : Node) (status : NodeStatus) : Handler Unit :=
  flush (.node node) (.node { node with status })

/-- A deletion that matches no row is not an error. -/
def deleteNodeRow (node : Node) : Handler Unit := do
  let _ ← .exec (.delete (.node node.id))

/-! ## `NodeMetricRepository` -/

def upsertSamples (nodeId : Uuid) (samples : List NodeMetricSample) : Handler Unit :=
  if samples.isEmpty then pure ()
  else do
    let now ← utcNow
    .exec (.upsert (samples.map fun s => .nodeMetric
      { nodeId, gpuIndex := s.gpuIndex, utilizationPct := s.utilizationPct,
        memoryUsedBytes := s.memoryUsedBytes, memoryTotalBytes := s.memoryTotalBytes,
        temperatureC := s.temperatureC, recordedAt := now }))

/-! ## `JobRepository` -/

def createJob (userId : Uuid) (p : SubmitJobRequest) : Handler Job := do
  let id ← uuid4
  let createdAt ← .exec .txTime
  let job : Job :=
    { id, userId, dockerImage := p.dockerImage, command := p.command, gpuCount := p.gpuCount,
      maxDurationSeconds := p.maxDurationSeconds, status := .queued,
      preferredNodeId := p.preferredNodeId, createdAt }
  .exec (.insert (.job job))
  pure job

def selectJob (w : Cond) : Handler (Option Job) := do
  match ← .exec (.select w) with
  | some (.job j) => pure (some j)
  | _ => pure none

def getJobById (jobId : Uuid) : Handler (Option Job) := selectJob (.byKey (.job jobId))

def getRunningForNode (nodeId : Uuid) : Handler (Option Job) := selectJob (.runningForNode nodeId)

/-- The rows of the query, in order, until one of them can be locked. -/
def lockFirst (w : Cond) : List Row → Handler (Option Job)
  | [] => pure none
  | r :: rs => do
    match ← .exec (.tryLock w r.key) with
    | some (.job j) => pure (some j)
    | _ => lockFirst w rs

/-- A queued job as `claim_next_for_node` leaves it. -/
def Job.claimedBy (nodeId : Uuid) (now : Time) (job : Job) : Job :=
  { job with status := .running, assignedNodeId := some nodeId, startedAt := some now }

/-- `SELECT … FOR UPDATE SKIP LOCKED LIMIT 1`, and the update of the row it locked. -/
def claimNextForNode (nodeId : Uuid) (gpuCapacity : Int) : Handler (Option Job) := do
  let rows ← .exec (.selectAll (.claimable nodeId gpuCapacity))
  match ← lockFirst (.claimable nodeId gpuCapacity) rows with
  | none => pure none
  | some job =>
    let now ← utcNow
    flush (.job job) (.job (job.claimedBy nodeId now))
    pure (some (job.claimedBy nodeId now))

/-- A job as `mark_terminal` leaves it. -/
def Job.terminated (status : JobStatus) (exitCode : Option Int) (errorMessage : Option Str)
    (now : Time) (job : Job) : Job :=
  { job with status, exitCode, errorMessage, completedAt := some now }

/-- A job as `request_cancel` leaves it. -/
def Job.cancelRequested (now : Time) (job : Job) : Job :=
  { job with cancelRequestedAt := some now }

/-! ## `JobLogRepository` -/

/-- A fresh identifier for each entry. -/
def logRows (jobId : Uuid) (receivedAt : Time) : List JobLogEntryIn → Handler (List Row)
  | [] => pure []
  | e :: es => do
    let id ← uuid4
    let rows ← logRows jobId receivedAt es
    let entry : JobLog :=
      { id, jobId, stream := e.stream, content := e.content, sequence := e.sequence, receivedAt }
    pure (.jobLog entry :: rows)

def appendLogs (jobId : Uuid) (entries : List JobLogEntryIn) : Handler Nat :=
  if entries.isEmpty then pure 0
  else do
    let receivedAt ← .exec .txTime
    let rows ← logRows jobId receivedAt entries
    .exec (.insertNew rows)

end GpuNetwork
