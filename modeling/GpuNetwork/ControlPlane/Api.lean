import GpuNetwork.ControlPlane.Pagination
import GpuNetwork.ControlPlane.Schema

/-!
# Requests, answers and errors

What reaches a handler and what it returns: the request bodies of `app/schemas` with
the checks they pass before a handler sees them, the errors of `app/core/errors` with
the texts of `app/main`, and the libraries the services call.

* `Request`, `Response`, `ApiError`.
* `App` — bcrypt, the token generator, JWT and the settings.
* `Handler` — a program over the tables that answers a request.
-/

namespace GpuNetwork

open ReadCommitted

/-! ## Request bodies -/

/-- What `EmailStr` asks of an address, as far as it matters here: an `@`, and no NUL. -/
def isEmail (email : Str) : Bool := email.contains '@' && !email.contains '\x00'

structure SignupRequest where
  email : Str
  password : Str
  email_accepted : isEmail email = true
  password_length : 8 ≤ password.length ∧ password.length ≤ 72

structure LoginRequest where
  email : Str
  password : Str
  email_accepted : isEmail email = true
  password_length : 1 ≤ password.length ∧ password.length ≤ 72

structure GenerateKeyRequest where
  name : Str
  name_length : 1 ≤ name.length ∧ name.length ≤ 100

structure ApproveRequest where
  canHost : Bool := false
  creditsGpuHours : Int := 0
  credits_nonneg : 0 ≤ creditsGpuHours

structure RegisterNodeRequest where
  claimToken : Str
  gpuModel : Str
  gpuMemoryGb : Int
  gpuCount : Int
  suggestedName : Option Str := none
  claimToken_length : 1 ≤ claimToken.length ∧ claimToken.length ≤ 128
  gpuModel_length : 1 ≤ gpuModel.length ∧ gpuModel.length ≤ 100
  gpuMemoryGb_pos : 1 ≤ gpuMemoryGb
  gpuCount_pos : 1 ≤ gpuCount
  suggestedName_length : ∀ n ∈ suggestedName, n.length ≤ 100

/-- `MAX_JOB_DURATION_SECONDS`. -/
def maxJobDurationSeconds : Int := 86400 * 7

/-- The grammar of the image name is checked apart from this. -/
structure SubmitJobRequest where
  dockerImage : Str
  command : List Str
  gpuCount : Int
  maxDurationSeconds : Int
  preferredNodeId : Option Uuid := none
  dockerImage_length : 1 ≤ dockerImage.length ∧ dockerImage.length ≤ 255
  command_length : 1 ≤ command.length ∧ command.length ≤ 64
  command_nonempty : ∀ x ∈ command, x ≠ []
  gpuCount_range : 1 ≤ gpuCount ∧ gpuCount ≤ 64
  maxDurationSeconds_range :
    1 ≤ maxDurationSeconds ∧ maxDurationSeconds ≤ maxJobDurationSeconds

structure CompleteJobRequest where
  exitCode : Int
  errorMessage : Option Str := none
  exitCode_range : -1024 ≤ exitCode ∧ exitCode ≤ 1024
  errorMessage_length : ∀ m ∈ errorMessage, m.length ≤ 4000

structure JobLogEntryIn where
  stream : LogStream
  content : Str
  sequence : Int
  content_length : 1 ≤ content.length ∧ content.length ≤ 64 * 1024
  sequence_nonneg : 0 ≤ sequence

structure NodeMetricSample where
  gpuIndex : Int
  utilizationPct : Int
  memoryUsedBytes : Int
  memoryTotalBytes : Int
  temperatureC : Int
  gpuIndex_range : 0 ≤ gpuIndex ∧ gpuIndex ≤ 63
  utilizationPct_range : 0 ≤ utilizationPct ∧ utilizationPct ≤ 100
  memoryUsedBytes_nonneg : 0 ≤ memoryUsedBytes
  memoryTotalBytes_nonneg : 0 ≤ memoryTotalBytes
  temperatureC_range : -50 ≤ temperatureC ∧ temperatureC ≤ 200

/-! ## Requests -/

theorem plain_of_none :
    ((none : Option Str).toList ++ (none : Option Str).toList).all plainText = true := rfl

/-- Where a request comes from: the address of the connection and the header `User-Agent`,
and there is no NUL in a header. -/
structure Client where
  ipAddress : Option Str := none
  userAgent : Option Str := none
  plain : (ipAddress.toList ++ userAgent.toList).all plainText = true := by exact plain_of_none

/-- A request with a bearer token, if it carries one. -/
structure Caller where
  bearer : Option Str
  client : Client := {}

inductive Request where
  -- those that write
  | signup (client : Client) (payload : SignupRequest)
  | login (client : Client) (payload : LoginRequest)
  | generateKey (caller : Caller) (payload : GenerateKeyRequest)
  | revokeKey (caller : Caller) (apiKeyId : Uuid)
  | approveUser (caller : Caller) (userId : Uuid) (payload : ApproveRequest)
  | suspendUser (caller : Caller) (userId : Uuid)
  | listAuditEvents (caller : Caller) (filter : AuditFilter) (cursor : Option Str) (limit : Nat)
  | createClaimToken (caller : Caller)
  | registerNode (client : Client) (payload : RegisterNodeRequest)
  | heartbeat (bearer : Option Str) (nodeId : Uuid)
  | pushMetrics (bearer : Option Str) (nodeId : Uuid) (samples : List NodeMetricSample)
  | drainNode (caller : Caller) (nodeId : Uuid)
  | undrainNode (caller : Caller) (nodeId : Uuid)
  | deleteNode (caller : Caller) (nodeId : Uuid)
  | forceDrainNode (caller : Caller) (nodeId : Uuid)
  | submitJob (caller : Caller) (payload : SubmitJobRequest)
  | claimJob (bearer : Option Str)
  | completeJob (bearer : Option Str) (jobId : Uuid) (payload : CompleteJobRequest)
  | cancelJob (caller : Caller) (jobId : Uuid)
  | forceKillJob (caller : Caller) (jobId : Uuid)
  | pushLogs (bearer : Option Str) (jobId : Uuid) (entries : List JobLogEntryIn)
  -- those that only read
  | listUsers (caller : Caller) (status emailQuery cursor : Option Str) (limit : Nat)
  | getUserDetail (caller : Caller) (userId : Uuid)
  | getAuditEvent (caller : Caller) (eventId : Uuid)
  | dashboard (caller : Caller)
  | listJobs (caller : Caller) (status cursor : Option Str) (limit : Nat)
  | getJob (caller : Caller) (jobId : Uuid)
  | getLogs (caller : Caller) (jobId : Uuid) (afterSequence : Int) (limit : Nat)

/-! ## Answers -/

/-- The figures of the dashboard. -/
structure DashboardData where
  totalUsers : Nat
  pendingUsers : Nat
  activeUsers : Nat
  suspendedUsers : Nat
  onlineNodes : Nat
  offlineNodes : Nat
  drainingNodes : Nat
  queuedJobs : Nat
  runningJobs : Nat
  completed24h : Nat
  failed24h : Nat
  cancelled24h : Nat
  gpuHoursServed24h : Int
  deriving DecidableEq

inductive Response where
  | user (u : User)
  | token (accessToken : Str) (expiresInSeconds : Int)
  | apiKeyGenerated (k : ApiKey) (fullKey : Str)
  | apiKey (k : ApiKey)
  | auditEvents (items : List (AuditLog × Option Str)) (nextCursor : Option Str)
  | claimToken (token lookupPrefix installCommand : Str) (expiresAt : Time)
  | registered (nodeId : Uuid) (agentToken controlPlaneUrl : Str)
  | heartbeat (receivedAt : Time) (cancelJobId : Option Uuid)
  | node (n : Node) (status : NodeStatus) (currentJobId : Option Uuid)
  | job (j : Job)
  | assignment (jobId : Uuid) (dockerImage : Str) (command : List Str)
      (maxDurationSeconds : Int)
  | noContent
  | users (items : List User) (nextCursor : Option Str)
  | userDetail (u : User) (signupIpAddress : Option Str)
  | auditEvent (a : AuditLog) (userEmail : Option Str)
  | dashboard (data : DashboardData)
  | jobs (items : List Job) (nextCursor : Option Str)
  | logs (items : List JobLog)
  deriving DecidableEq

/-! ## Errors -/

/-- Why a claim token is refused. -/
inductive ClaimTokenFault where
  | unknownToken
  | alreadyUsed
  | expired
  deriving DecidableEq

inductive ApiError where
  -- `app/core/errors`
  | emailAlreadyExists (email : Str)
  | invalidCredentials
  | userNotFound (userId : Uuid)
  | apiKeyNotFound (apiKeyId : Uuid)
  | apiKeyNotOwned
  | notAHost
  | nodeNotFound (nodeId : Uuid)
  | nodeBusy (nodeId : Uuid)
  | nodeNotDraining (nodeId : Uuid) (currentStatus : NodeStatus)
  | claimTokenInvalid (fault : ClaimTokenFault)
  | accountNotActive (status : UserStatus)
  | insufficientCredits (requiredSeconds availableHours : Int)
  | jobNotFound (jobId : Uuid)
  | invalidJobTransition (fromStatus toStatus : JobStatus)
  | auditEventNotFound (eventId : Uuid)
  | invalidPaginationCursor
  -- the `HTTPException`s of `app/deps` and the controllers
  | notAuthenticated
  | invalidApiKey
  | invalidToken
  | invalidTokenSubject
  | userNoLongerExists
  | adminRequired
  | invalidAgentToken
  | agentMismatch
  -- what nothing handles
  | database (e : SqlError)
  | staleData
  | refreshFailed
  | bcryptRaised
  | attributeError
  | recursionError
  | dateOutOfRange
  deriving DecidableEq

namespace ApiError

/-- The status code of the exception handlers of `app/main`; 500 where there is none. -/
def statusCode : ApiError → Nat
  | emailAlreadyExists _ => 400
  | invalidCredentials => 401
  | userNotFound _ => 404
  | apiKeyNotFound _ => 404
  | apiKeyNotOwned => 403
  | notAHost => 403
  | nodeNotFound _ => 404
  | nodeBusy _ => 409
  | nodeNotDraining _ _ => 409
  | claimTokenInvalid _ => 400
  | accountNotActive _ => 403
  | insufficientCredits _ _ => 402
  | jobNotFound _ => 404
  | invalidJobTransition _ _ => 409
  | auditEventNotFound _ => 404
  | invalidPaginationCursor => 400
  | notAuthenticated => 401
  | invalidApiKey => 401
  | invalidToken => 401
  | invalidTokenSubject => 401
  | userNoLongerExists => 401
  | adminRequired => 403
  | invalidAgentToken => 401
  | agentMismatch => 403
  | database _ => 500
  | staleData => 500
  | refreshFailed => 500
  | bcryptRaised => 500
  | attributeError => 500
  | recursionError => 500
  | dateOutOfRange => 500

end ApiError

/-! ## Libraries and settings -/

/-- `app/config`. -/
structure Settings where
  controlPlanePublicUrl : Str := "http://localhost:8000".toList
  claimTokenTtlHours : Int := 24
  jwtExpireDays : Int := 7

/-- What the services are deployed with. -/
structure App where
  /-- `bcrypt.hashpw` with a salt drawn at random; `none` when it raises. -/
  hashpw : Nat → Str → Option Str
  /-- A hash is written in the characters of base 64 and `$`. -/
  hashpw_plain : ∀ salt text, ∀ hash ∈ hashpw salt text, plainText hash = true
  /-- `bcrypt.checkpw`; `none` when it raises. -/
  checkpw : Str → Str → Option Bool
  /-- `secrets.token_urlsafe` of the bytes drawn at random. -/
  tokenUrlsafe : Nat → Str
  /-- It is written in the characters of base 64. -/
  tokenUrlsafe_plain : ∀ bytes, plainText (tokenUrlsafe bytes) = true
  /-- `jwt.encode` of a subject and an expiry. -/
  jwtEncode : Uuid → Time → Str
  /-- `jwt.decode`: the subject, when the token is valid at that time and has one. -/
  jwtDecode : Time → Str → Option Str
  /-- `astimezone` of a clock that does not say how far it is ahead of UTC: by the time
  zone of the server. -/
  localInstant : Nat → Time := fun wall => wall - Text.unixEpoch
  /-- The lower case of a letter by the locale of the database. -/
  lower : Char → Char := Char.toLower
  /-- How many arrays and objects `json.loads` lets be open around another one. -/
  jsonNesting : Nat := 1000
  settings : Settings := {}

/-- A program that answers a request, or a part of one. -/
abbrev Handler := Prog Row Key Cond ApiError

end GpuNetwork
