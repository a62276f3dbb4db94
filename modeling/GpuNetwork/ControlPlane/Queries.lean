import GpuNetwork.ControlPlane.JobService
import GpuNetwork.ControlPlane.NodeService

/-!
# Queries

The routes of `app/controllers/admin` and `app/controllers/jobs` that only read.

* `listUsers`, `getUserDetail`, `getAuditEvent`, `dashboard` — for admins.
* `listJobs`, `getJob`, `getLogs` — for the owner of a job.
-/

namespace GpuNetwork

open ReadCommitted

/-! ## The rows of a query -/

def usersOf (rows : List Row) : List User :=
  rows.filterMap fun r => match r with | .user u => some u | _ => none

def nodesOf (rows : List Row) : List Node :=
  rows.filterMap fun r => match r with | .node n => some n | _ => none

def jobsOf (rows : List Row) : List Job :=
  rows.filterMap fun r => match r with | .job j => some j | _ => none

def auditLogsOf (rows : List Row) : List AuditLog :=
  rows.filterMap fun r => match r with | .auditLog a => some a | _ => none

def jobLogsOf (rows : List Row) : List JobLog :=
  rows.filterMap fun r => match r with | .jobLog l => some l | _ => none

variable (app : App)

/-! ## `AdminService` -/

/-- `UserRepository.list_filtered`. -/
def listFilteredUsers (status : Option Str) (emailQuery : Option Str)
    (cursor : Option (Time × Uuid)) (limit : Nat) : Handler (List User) := do
  sendTexts (status.toList ++ emailQuery.toList)
  let rows ← .exec (.selectAll (.usersPage app.lower status (emailQuery.getD []) cursor))
  pure ((usersOf rows).take limit)

/-- `list_users`. -/
def listUsersPage (status emailQuery cursor : Option Str) (limit : Nat) :
    Handler (List User × Option Str) := do
  let decoded ← cursorBound app cursor
  let users ← listFilteredUsers app status emailQuery decoded limit
  pure (users, nextCursor limit (users.map fun u => (u.createdAt, u.id)))

def listUsers (caller : Caller) (status emailQuery cursor : Option Str) (limit : Nat) :
    Handler Response := do
  let _ ← requireAdmin app caller.bearer
  let (users, next) ← listUsersPage app status emailQuery cursor limit
  pure (.users users next)

/-- `get_user_detail`. -/
def getUserDetail (caller : Caller) (userId : Uuid) : Handler Response := do
  let _ ← requireAdmin app caller.bearer
  match ← getUserById userId with
  | none => .throw (.userNotFound userId)
  | some user =>
    let rows ← .exec (.selectAll (.signupsOf userId))
    pure (.userDetail user ((auditLogsOf rows).head?.bind (·.ipAddress)))

/-- `get_audit_event`.  The outer join is read in two statements. -/
def getAuditEvent (caller : Caller) (eventId : Uuid) : Handler Response := do
  let _ ← requireAdmin app caller.bearer
  let users ← .exec (.selectAll .allUsers)
  match ← .exec (.select (.byKey (.auditLog eventId))) with
  | some (.auditLog a) => pure (.auditEvent a (joinedEmail users a))
  | _ => .throw (.auditEventNotFound eventId)

/-- One day, in microseconds. -/
def day : Time := 86400 * second

/-- The bill of a job that ended, if it ran. -/
def servedHours (j : Job) : Int :=
  match j.startedAt, j.completedAt with
  | some startedAt, some completedAt => billGpuHours startedAt completedAt j.gpuCount
  | _, _ => 0

/-- `dashboard`. -/
def dashboard (caller : Caller) : Handler Response := do
  let _ ← requireAdmin app caller.bearer
  let now ← utcNow
  let cutoff := now - day
  let users := usersOf (← .exec (.selectAll .allUsers))
  let nodes := nodesOf (← .exec (.selectAll .allNodes))
  let jobs := jobsOf (← .exec (.selectAll .allJobs))
  let completed := jobsOf (← .exec (.selectAll (.endedSince [.completed] cutoff)))
  let failed := jobsOf (← .exec (.selectAll (.endedSince [.failed] cutoff)))
  let cancelled := jobsOf (← .exec (.selectAll (.endedSince [.cancelled] cutoff)))
  let ended := jobsOf
    (← .exec (.selectAll (.endedSince [.completed, .failed, .cancelled] cutoff)))
  let withStatus := fun s => users.countP fun u => decide (u.status = s)
  let showing := fun s => nodes.countP fun n => decide (computeNodeStatus n now = s)
  pure (.dashboard
    { totalUsers := users.length, pendingUsers := withStatus .pending,
      activeUsers := withStatus .active, suspendedUsers := withStatus .suspended,
      onlineNodes := showing .online, offlineNodes := showing .offline,
      drainingNodes := showing .draining,
      queuedJobs := jobs.countP fun j => decide (j.status = .queued),
      runningJobs := jobs.countP fun j => decide (j.status = .running),
      completed24h := completed.length, failed24h := failed.length,
      cancelled24h := cancelled.length, gpuHoursServed24h := (ended.map servedHours).sum })

/-! ## `JobService` -/

/-- `JobRepository.list_for_user`. -/
def listJobsForUser (userId : Uuid) (status : Option Str) (cursor : Option (Time × Uuid))
    (limit : Nat) : Handler (List Job) := do
  sendTexts status.toList
  let rows ← .exec (.selectAll (.jobsPage userId status cursor))
  pure ((jobsOf rows).take limit)

/-- `list_for_user`. -/
def listJobsPage (owner : User) (status cursor : Option Str) (limit : Nat) :
    Handler (List Job × Option Str) := do
  let decoded ← cursorBound app cursor
  let jobs ← listJobsForUser owner.id status decoded limit
  pure (jobs, nextCursor limit (jobs.map fun j => (j.createdAt, j.id)))

def listJobs (caller : Caller) (status cursor : Option Str) (limit : Nat) :
    Handler Response := do
  let owner ← currentUser app caller.bearer
  let (jobs, next) ← listJobsPage app owner status cursor limit
  pure (.jobs jobs next)

/-- `get_for_user`. -/
def getJobForUser (owner : User) (jobId : Uuid) : Handler Job := do
  match ← getJobById jobId with
  | none => .throw (.jobNotFound jobId)
  | some job => if job.userId ≠ owner.id then .throw (.jobNotFound jobId) else pure job

def getJob (caller : Caller) (jobId : Uuid) : Handler Response := do
  let owner ← currentUser app caller.bearer
  let job ← getJobForUser owner jobId
  pure (.job job)

/-- `list_after`. -/
def listAfter (jobId : Uuid) (afterSequence : Int) (limit : Nat) : Handler (List JobLog) := do
  let rows ← .exec (.selectAll (.logsAfter jobId afterSequence))
  pure ((jobLogsOf rows).take limit)

/-- `get_logs_for_user`. -/
def getLogs (caller : Caller) (jobId : Uuid) (afterSequence : Int) (limit : Nat) :
    Handler Response := do
  let owner ← currentUser app caller.bearer
  let job ← getJobForUser owner jobId
  let logs ← listAfter job.id afterSequence limit
  pure (.logs logs)

end GpuNetwork
