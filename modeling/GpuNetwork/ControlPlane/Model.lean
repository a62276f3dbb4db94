import GpuNetwork.Store.Program

/-!
# The tables of the control plane

The rows of the database under the column names of `app/models`, and what the
services keep in them.  A string is a list of characters, an identifier is the
number of its UUID and a point in time counts microseconds.

* `JobStatus`, `allowedTransitions`, `assertTransition` — the job state machine.
* `User`, `Node`, `Job`, … — one structure for each table.
* `Event`, `EventData` — what an audit row records.
* `Row`, `Key` — a row of any table, and its primary key.
-/

namespace GpuNetwork

open ReadCommitted (Time)

/-- A string. -/
abbrev Str := List Char

/-- A UUID. -/
abbrev Uuid := Nat

/-- One second, in microseconds. -/
def second : Time := 1000000

/-! ## Statuses -/

inductive UserStatus where
  | pending
  | active
  | suspended
  deriving DecidableEq

/-- The stored status of a node. -/
inductive NodeStatus where
  | online
  | offline
  | draining
  deriving DecidableEq

inductive JobStatus where
  | queued
  | running
  | completed
  | failed
  | cancelled
  deriving DecidableEq

/-- The stored texts. -/
def UserStatus.text : UserStatus → Str
  | .pending => "pending".toList
  | .active => "active".toList
  | .suspended => "suspended".toList

def JobStatus.text : JobStatus → Str
  | .queued => "queued".toList
  | .running => "running".toList
  | .completed => "completed".toList
  | .failed => "failed".toList
  | .cancelled => "cancelled".toList

/-- `TERMINAL_STATUSES`. -/
def JobStatus.isTerminal : JobStatus → Bool
  | .completed => true
  | .failed => true
  | .cancelled => true
  | _ => false

/-- `ALLOWED_TRANSITIONS`. -/
def allowedTransitions : List (JobStatus × JobStatus) :=
  [(.queued, .running), (.queued, .cancelled), (.running, .completed), (.running, .failed),
    (.running, .cancelled)]

/-- No allowed transition leaves a terminal status. -/
theorem not_allowed_of_isTerminal {a b : JobStatus} (h : a.isTerminal = true) :
    (a, b) ∉ allowedTransitions := by
  cases a <;> cases b <;> simp_all [allowedTransitions, JobStatus.isTerminal]

/-! ## Rows -/

/-- `users`. -/
structure User where
  id : Uuid
  email : Str
  passwordHash : Str
  status : UserStatus := .pending
  canHost : Bool := false
  canRent : Bool := true
  isAdmin : Bool := false
  creditsGpuHours : Int := 0
  createdAt : Time
  deriving DecidableEq

/-- `nodes`. -/
structure Node where
  id : Uuid
  userId : Uuid
  name : Str
  gpuModel : Str
  gpuMemoryGb : Int
  gpuCount : Int
  status : NodeStatus := .offline
  lastSeenAt : Option Time := none
  agentTokenHash : Option Str := none
  agentTokenPrefix : Option Str := none
  createdAt : Time
  deriving DecidableEq

/-- `jobs`. -/
structure Job where
  id : Uuid
  userId : Uuid
  dockerImage : Str
  command : List Str
  gpuCount : Int
  maxDurationSeconds : Int
  status : JobStatus := .queued
  exitCode : Option Int := none
  errorMessage : Option Str := none
  assignedNodeId : Option Uuid := none
  preferredNodeId : Option Uuid := none
  createdAt : Time
  startedAt : Option Time := none
  completedAt : Option Time := none
  cancelRequestedAt : Option Time := none
  deriving DecidableEq

/-- `claim_tokens`. -/
structure ClaimToken where
  id : Uuid
  userId : Uuid
  lookupPrefix : Str
  tokenHash : Str
  expiresAt : Time
  consumedAt : Option Time := none
  createdAt : Time
  deriving DecidableEq

/-- `api_keys`. -/
structure ApiKey where
  id : Uuid
  userId : Uuid
  name : Str
  lookupPrefix : Str
  hash : Str
  createdAt : Time
  revokedAt : Option Time := none
  deriving DecidableEq

/-- The stream of a log line. -/
inductive LogStream where
  | stdout
  | stderr
  | system
  deriving DecidableEq

/-- `job_logs`. -/
structure JobLog where
  id : Uuid
  jobId : Uuid
  stream : LogStream
  content : Str
  sequence : Int
  receivedAt : Time
  deriving DecidableEq

/-- `node_metrics`. -/
structure NodeMetric where
  nodeId : Uuid
  gpuIndex : Int
  utilizationPct : Int
  memoryUsedBytes : Int
  memoryTotalBytes : Int
  temperatureC : Int
  recordedAt : Time
  deriving DecidableEq

/-! ## The audit log -/

/-- `audit_log.event_type`. -/
inductive Event where
  | authSignup
  | authLoginFailed
  | authLoginSuccess
  | userApproved
  | userSuspended
  | auditViewed
  | apikeyCreated
  | apikeyRevoked
  | nodeClaimTokenCreated
  | nodeRegistered
  | nodeDrained
  | nodeUndrained
  | nodeRemoved
  | adminNodeForceDrained
  | jobSubmitted
  | jobAssigned
  | jobCompleted
  | jobFailed
  | jobCancelled
  | adminJobForceKilled
  deriving DecidableEq

/-- The stored texts. -/
def Event.text : Event → Str
  | .authSignup => "auth.signup".toList
  | .authLoginFailed => "auth.login.failed".toList
  | .authLoginSuccess => "auth.login.success".toList
  | .userApproved => "user.approved".toList
  | .userSuspended => "user.suspended".toList
  | .auditViewed => "audit.viewed".toList
  | .apikeyCreated => "apikey.created".toList
  | .apikeyRevoked => "apikey.revoked".toList
  | .nodeClaimTokenCreated => "node.claim_token.created".toList
  | .nodeRegistered => "node.registered".toList
  | .nodeDrained => "node.drained".toList
  | .nodeUndrained => "node.undrained".toList
  | .nodeRemoved => "node.removed".toList
  | .adminNodeForceDrained => "admin.node.force_drained".toList
  | .jobSubmitted => "job.submitted".toList
  | .jobAssigned => "job.assigned".toList
  | .jobCompleted => "job.completed".toList
  | .jobFailed => "job.failed".toList
  | .jobCancelled => "job.cancelled".toList
  | .adminJobForceKilled => "admin.job.force_killed".toList

/-- The filters of an audit query. -/
structure AuditFilter where
  eventType : Option Str := none
  userEmail : Option Str := none
  ipAddress : Option Str := none
  createdFrom : Option Time := none
  createdTo : Option Time := none
  deriving DecidableEq

/-- `audit_log.event_data`.  A field that an event does not write and one it writes
as null are both `none`. -/
structure EventData where
  actorUserId : Option Uuid := none
  actorEmail : Option Str := none
  apiKeyId : Option Uuid := none
  billedGpuHours : Option Int := none
  canHost : Option Bool := none
  claimTokenPrefix : Option Str := none
  creditsGpuHours : Option Int := none
  dockerImage : Option Str := none
  email : Option Str := none
  errorMessage : Option Str := none
  exitCode : Option Int := none
  expiresAt : Option Time := none
  filters : Option AuditFilter := none
  gpuCount : Option Int := none
  gpuMemoryGb : Option Int := none
  gpuModel : Option Str := none
  jobId : Option Uuid := none
  lookupPrefix : Option Str := none
  maxDurationSeconds : Option Int := none
  name : Option Str := none
  nodeId : Option Uuid := none
  phase : Option JobStatus := none
  preferredNodeId : Option Uuid := none
  resultCount : Option Nat := none
  targetUserId : Option Uuid := none
  deriving DecidableEq

/-- `audit_log`. -/
structure AuditLog where
  id : Uuid
  userId : Option Uuid
  eventType : Event
  eventData : EventData := {}
  ipAddress : Option Str := none
  userAgent : Option Str := none
  createdAt : Time
  deriving DecidableEq

/-! ## A row of any table -/

inductive Row where
  | user (u : User)
  | node (n : Node)
  | job (j : Job)
  | claimToken (c : ClaimToken)
  | apiKey (k : ApiKey)
  | auditLog (a : AuditLog)
  | jobLog (l : JobLog)
  | nodeMetric (m : NodeMetric)
  deriving DecidableEq

/-- A table and a primary key in it. -/
inductive Key where
  | user (id : Uuid)
  | node (id : Uuid)
  | job (id : Uuid)
  | claimToken (id : Uuid)
  | apiKey (id : Uuid)
  | auditLog (id : Uuid)
  | jobLog (id : Uuid)
  | nodeMetric (nodeId : Uuid) (gpuIndex : Int)
  deriving DecidableEq

/-- The primary key of a row. -/
def Row.key : Row → Key
  | .user u => .user u.id
  | .node n => .node n.id
  | .job j => .job j.id
  | .claimToken c => .claimToken c.id
  | .apiKey k => .apiKey k.id
  | .auditLog a => .auditLog a.id
  | .jobLog l => .jobLog l.id
  | .nodeMetric m => .nodeMetric m.nodeId m.gpuIndex

end GpuNetwork
