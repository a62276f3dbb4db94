import GpuNetwork.ControlPlane.Accounts

/-!
# Jobs

`app/services/job_service` under the routes of `app/controllers/jobs`.

* `billGpuHours` — what a finished job costs.
* `submitJob`, `claimJob`, `completeJob`, `cancelJob`, `forceKillJob`, `pushLogs`.
-/

namespace GpuNetwork

open ReadCommitted

/-- `assert_transition`. -/
def assertTransition (fromStatus toStatus : JobStatus) : Handler Unit :=
  if (fromStatus, toStatus) ∈ allowedTransitions then pure ()
  else .throw (.invalidJobTransition fromStatus toStatus)

/-- One GPU-hour, in microseconds of one GPU. -/
def gpuHour : Int := 3600 * second

/-- `_bill_gpu_hours`: the elapsed time of all GPUs, rounded up to whole hours and never
below one.  The division is the exact one. -/
def billGpuHours (startedAt completedAt : Time) (gpuCount : Int) : Int :=
  let elapsed := max 0 (completedAt - startedAt)
  max 1 (-(-(elapsed * gpuCount) / gpuHour))

theorem one_le_billGpuHours (startedAt completedAt : Time) (gpuCount : Int) :
    1 ≤ billGpuHours startedAt completedAt gpuCount :=
  Int.le_max_left _ _

variable (app : App)

/-- `submit`. -/
def submitJob (caller : Caller) (p : SubmitJobRequest) : Handler Response := do
  let actor ← currentUser app caller.bearer
  if actor.status ≠ .active then .throw (.accountNotActive actor.status)
  else if actor.creditsGpuHours * 3600 < p.gpuCount * p.maxDurationSeconds then
    .throw (.insufficientCredits (p.gpuCount * p.maxDurationSeconds) actor.creditsGpuHours)
  else do
    let job ← createJob actor.id p
    createAudit .jobSubmitted (some actor.id)
      { jobId := some job.id, dockerImage := some p.dockerImage, gpuCount := some p.gpuCount,
        maxDurationSeconds := some p.maxDurationSeconds, preferredNodeId := p.preferredNodeId }
      caller.client
    commit
    let job ← refreshJob job.id
    pure (.job job)

/-- `claim_for_node`. -/
def claimForNode (node : Node) : Handler (Option Job) :=
  if node.status = .draining then pure none
  else do
    match ← getRunningForNode node.id with
    | some _ => pure none
    | none =>
      match ← claimNextForNode node.id node.gpuCount with
      | none =>
        .exec .rollback
        pure none
      | some job =>
        createAudit .jobAssigned (some job.userId)
          { jobId := some job.id, nodeId := some node.id, gpuCount := some job.gpuCount }
        commit
        let job ← refreshJob job.id
        pure (some job)

def claimJob (bearer : Option Str) : Handler Response := do
  let node ← currentNode app bearer
  match ← claimForNode node with
  | none => pure .noContent
  | some job =>
    pure (.assignment job.id job.dockerImage job.command job.maxDurationSeconds)

/-- Where `complete_job` sends a job. -/
def completionTarget (job : Job) (exitCode : Int) : JobStatus :=
  if job.cancelRequestedAt.isSome then .cancelled
  else if exitCode = 0 then .completed
  else .failed

/-- `f"job.{target}"`. -/
def terminalEvent : JobStatus → Event
  | .completed => .jobCompleted
  | .failed => .jobFailed
  | _ => .jobCancelled

/-- The balance after a bill. -/
def User.billed (hours : Int) (user : User) : User :=
  { user with creditsGpuHours := max 0 (user.creditsGpuHours - hours) }

/-- The flush of the owner's new balance, which goes with that of the job. -/
def flushBill (hours : Int) : Option User → Handler Unit
  | none => pure ()
  | some user => flush (.user user) (.user (user.billed hours))

/-- `complete_job`.  The balance is written by the flush of `mark_terminal`, after the
job: the mapper flushes the tables in the order of their classes. -/
def completeJobFor (node : Node) (jobId : Uuid) (p : CompleteJobRequest) : Handler Job := do
  match ← getJobById jobId with
  | none => .throw (.jobNotFound jobId)
  | some job =>
    if job.assignedNodeId ≠ some node.id then .throw (.jobNotFound jobId)
    else do
      let target := completionTarget job p.exitCode
      assertTransition job.status target
      let completedAt ← utcNow
      let hours := billGpuHours (job.startedAt.getD completedAt) completedAt job.gpuCount
      let user ← getUserById job.userId
      let now ← utcNow
      flush (.job job) (.job (job.terminated target (some p.exitCode) p.errorMessage now))
      flushBill hours user
      createAudit (terminalEvent target) (some job.userId)
        { jobId := some job.id, nodeId := some node.id, exitCode := some p.exitCode,
          billedGpuHours := some hours, errorMessage := p.errorMessage }
      commit
      refreshJob job.id

def completeJob (bearer : Option Str) (jobId : Uuid) (p : CompleteJobRequest) :
    Handler Response := do
  let node ← currentNode app bearer
  let job ← completeJobFor node jobId p
  pure (.job job)

/-- The message of a job that is cancelled before it ran. -/
def cancelledByUser : Str := "cancelled by user".toList

/-- What `_cancel_or_request_cancel` flushes; the phase it logs. -/
def cancelWrite (job : Job) : Handler JobStatus :=
  match job.status with
  | .queued => do
    let now ← utcNow
    flush (.job job) (.job (job.terminated .cancelled none (some cancelledByUser) now))
    pure .queued
  | .running =>
    if job.cancelRequestedAt = none then do
      let now ← utcNow
      flush (.job job) (.job (job.cancelRequested now))
      pure .running
    else pure .running
  | status => do
    assertTransition status .cancelled
    pure status

/-- `_cancel_or_request_cancel`. -/
def cancelOrRequestCancel (job : Job) (auditEvent : Event) (actor : User) (auditUserId : Uuid)
    (targetUserId : Option Uuid) (client : Client) : Handler Job := do
  if job.status.isTerminal then assertTransition job.status .cancelled
  let phase ← cancelWrite job
  createAudit auditEvent (some auditUserId)
    { jobId := some job.id, phase := some phase, actorUserId := some actor.id,
      actorEmail := some actor.email, targetUserId }
    client
  commit
  refreshJob job.id

/-- `cancel_job`. -/
def cancelJob (caller : Caller) (jobId : Uuid) : Handler Response := do
  let owner ← currentUser app caller.bearer
  match ← getJobById jobId with
  | none => .throw (.jobNotFound jobId)
  | some job =>
    if job.userId ≠ owner.id then .throw (.jobNotFound jobId)
    else do
      let job ← cancelOrRequestCancel job .jobCancelled owner owner.id none caller.client
      pure (.job job)

/-- `admin_force_kill`. -/
def forceKillJob (caller : Caller) (jobId : Uuid) : Handler Response := do
  let admin ← requireAdmin app caller.bearer
  match ← getJobById jobId with
  | none => .throw (.jobNotFound jobId)
  | some job =>
    let job ← cancelOrRequestCancel job .adminJobForceKilled admin job.userId (some job.userId)
      caller.client
    pure (.job job)

/-- `append_logs`. -/
def pushLogs (bearer : Option Str) (jobId : Uuid) (entries : List JobLogEntryIn) :
    Handler Response := do
  let node ← currentNode app bearer
  if entries.isEmpty then pure .noContent
  else do
    match ← getJobById jobId with
    | none => .throw (.jobNotFound jobId)
    | some job =>
      if job.assignedNodeId ≠ some node.id then .throw (.jobNotFound jobId)
      else do
        let _ ← appendLogs job.id entries
        commit
        pure .noContent

end GpuNetwork
