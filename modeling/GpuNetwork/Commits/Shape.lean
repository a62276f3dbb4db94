import GpuNetwork.ControlPlane.Server
import GpuNetwork.Store.Soundness

/-!
# What each request commits

The shape of the transactions of the control plane: for every handler, the writes it
commits, and what it had read, missed or locked before.  `Answer` says what an answer
stands for.  That the handlers keep to this is proved in `GpuNetwork.Commits.Jobs`,
`GpuNetwork.Commits.Nodes` and `GpuNetwork.Commits.Accounts`.

* `Shape` — one constructor for each way a handler commits.
* `platform` — the specification of the control plane they make up.
-/

namespace GpuNetwork

open ReadCommitted

/-- The writes of a flush of one object. -/
def flushed (old new : Row) : List (Write Row Key) :=
  if new = old then [] else [.update old new]

/-- A flush of one object either had nothing to write or found its row. -/
def Flushed (tx : Transaction) (old new : Row) : Prop := new = old ∨ tx.Found old.key

/-- The flush of the owner's balance. -/
def billWrites (hours : Int) : Option User → List (Write Row Key)
  | none => []
  | some u => flushed (.user u) (.user (u.billed hours))

/-- The owner of a job as the transaction has found them. -/
def Owner (tx : Transaction) (hours : Int) (userId : Uuid) : Option User → Prop
  | none => tx.Missed (.byKey (.user userId))
  | some u => tx.Read (.byKey (.user userId)) (.user u) ∧
      Flushed tx (.user u) (.user (u.billed hours))

/-- The audit row of a transaction. -/
structure Logs (tx : Transaction) (a : AuditLog) (event : Event) (userId : Option Uuid)
    (data : EventData) : Prop where
  event : a.eventType = event
  userId : a.userId = userId
  data : a.eventData = data
  fresh : tx.Fresh (.auditLog a.id)

/-- The transaction has authenticated a user. -/
def AsUser (tx : Transaction) (u : User) : Prop := ∃ w, tx.Read w (.user u)

/-- The transaction has authenticated the agent of a node. -/
structure AsNode (app : App) (tx : Transaction) (bearer : Option Str) (n : Node) : Prop where
  intro ::
  bearer : ∃ token hash, bearer = some token ∧ n.agentTokenHash = some hash ∧
    app.checkpw token hash = some true ∧
    tx.Read (.nodeByAgentPrefix (lookupPrefix token)) (.node n)

/-- The requests that cancel a job, with the event they log. -/
inductive Cancels : Request → Uuid → Event → Prop
  | cancelJob {caller : Caller} {jobId : Uuid} :
      Cancels (.cancelJob caller jobId) jobId .jobCancelled
  | forceKillJob {caller : Caller} {jobId : Uuid} :
      Cancels (.forceKillJob caller jobId) jobId .adminJobForceKilled

/-- The requests that drain a node, with the event they log. -/
inductive Drains : Request → Uuid → Event → Prop
  | drainNode {caller : Caller} {nodeId : Uuid} :
      Drains (.drainNode caller nodeId) nodeId .nodeDrained
  | forceDrainNode {caller : Caller} {nodeId : Uuid} :
      Drains (.forceDrainNode caller nodeId) nodeId .adminNodeForceDrained

/-- The requests that set the columns of an account, with the event they log and what
they make of the account. -/
inductive Sets : Request → Uuid → Event → (User → User) → EventData → Prop
  | approveUser {caller : Caller} {userId : Uuid} {p : ApproveRequest} {admin : User} :
      Sets (.approveUser caller userId p) userId .userApproved
        (fun u => { u with
          status := .active, canHost := p.canHost, creditsGpuHours := p.creditsGpuHours })
        { actorUserId := some admin.id, actorEmail := some admin.email,
          canHost := some p.canHost, creditsGpuHours := some p.creditsGpuHours }
  | suspendUser {caller : Caller} {userId : Uuid} {admin : User} :
      Sets (.suspendUser caller userId) userId .userSuspended
        (fun u => { u with status := .suspended })
        { actorUserId := some admin.id, actorEmail := some admin.email }

/-- A transaction that only adds an audit row or touches tables of its own. -/
inductive Aside (app : App) : Request → Transaction → Prop
  | login {client : Client} {p : LoginRequest} {tx : Transaction} {a : AuditLog} :
      tx.writes = [.insert (.auditLog a)] → tx.Fresh (.auditLog a.id) →
      (a.eventType = .authLoginSuccess ∨ a.eventType = .authLoginFailed) →
      Aside app (.login client p) tx
  | listAuditEvents {caller : Caller} {f : AuditFilter} {cursor : Option Str}
      {limit : Nat} {tx : Transaction} {a : AuditLog} :
      tx.writes = [.insert (.auditLog a)] → tx.Fresh (.auditLog a.id) →
      a.eventType = .auditViewed → Aside app (.listAuditEvents caller f cursor limit) tx
  | generateKey {caller : Caller} {p : GenerateKeyRequest} {tx : Transaction} {k : ApiKey}
      {a : AuditLog} :
      tx.writes = [.insert (.apiKey k), .insert (.auditLog a)] → tx.Fresh (.auditLog a.id) →
      a.eventType = .apikeyCreated → Aside app (.generateKey caller p) tx
  | revokeKey {caller : Caller} {id : Uuid} {tx : Transaction} {k k' : ApiKey} {a : AuditLog} :
      tx.writes = [.update (.apiKey k) (.apiKey k'), .insert (.auditLog a)] →
      tx.Fresh (.auditLog a.id) → a.eventType = .apikeyRevoked → Aside app (.revokeKey caller id) tx
  | createClaimToken {caller : Caller} {tx : Transaction} {c : ClaimToken} {a : AuditLog} :
      tx.writes = [.insert (.claimToken c), .insert (.auditLog a)] →
      tx.Fresh (.claimToken c.id) → tx.Fresh (.auditLog a.id) →
      a.eventType = .nodeClaimTokenCreated → Aside app (.createClaimToken caller) tx
  | pushLogs {bearer : Option Str} {id : Uuid} {entries : List JobLogEntryIn} {tx : Transaction}
      {n : Node} {j : Job} {logs : List JobLog} :
      AsNode app tx bearer n → tx.Read (.byKey (.job id)) (.job j) →
      j.assignedNodeId = some n.id → tx.writes = logs.map (fun l => .insert (.jobLog l)) →
      (∀ l ∈ logs, l.jobId = id ∧ ∃ e ∈ entries,
        l.stream = e.stream ∧ l.content = e.content ∧ l.sequence = e.sequence) →
      logs.Pairwise (fun a b => a.sequence ≠ b.sequence) →
      Aside app (.pushLogs bearer id entries) tx

/-- What a transaction of the control plane looks like when it commits. -/
inductive Shape (app : App) : Request → Transaction → Prop
  | aside {req : Request} {tx : Transaction} : Aside app req tx → Shape app req tx
  | signup {client : Client} {p : SignupRequest} {tx : Transaction} {u : User} {a : AuditLog} :
      tx.writes = [.insert (.user u), .insert (.auditLog a)] →
      u = { id := u.id, email := p.email, passwordHash := u.passwordHash,
            createdAt := u.createdAt } →
      tx.Fresh (.user u.id) → Logs tx a .authSignup (some u.id) {} →
      Shape app (.signup client p) tx
  | sets {req : Request} {id : Uuid} {event : Event} {f : User → User} {data : EventData}
      {tx : Transaction} {u : User} {a : AuditLog} :
      Sets req id event f data → u.id = id → AsUser tx u → (f u).id = u.id →
      tx.writes = flushed (.user u) (.user (f u)) ++ [.insert (.auditLog a)] →
      Flushed tx (.user u) (.user (f u)) → Logs tx a event (some id) data → Shape app req tx
  | registerNode {client : Client} {p : RegisterNodeRequest} {tx : Transaction} {c : ClaimToken}
      {n : Node} {now : Time} {a : AuditLog} :
      tx.Read (.claimTokenByPrefix (lookupPrefix p.claimToken)) (.claimToken c) →
      app.checkpw p.claimToken c.tokenHash = some true → c.consumedAt = none →
      n.userId = c.userId → n.gpuCount = p.gpuCount → n.status = .online →
      tx.Fresh (.node n.id) → tx.Found (.claimToken c.id) →
      tx.writes = [.insert (.node n),
        .update (.claimToken c) (.claimToken { c with consumedAt := some now }),
        .insert (.auditLog a)] →
      Logs tx a .nodeRegistered (some c.userId)
        { nodeId := some n.id, gpuModel := some p.gpuModel, gpuMemoryGb := some p.gpuMemoryGb,
          gpuCount := some p.gpuCount, claimTokenPrefix := some (lookupPrefix p.claimToken) } →
      Shape app (.registerNode client p) tx
  | heartbeat {bearer : Option Str} {id : Uuid} {tx : Transaction} {n : Node} {now : Time} :
      AsNode app tx bearer n → n.id = id →
      tx.writes = flushed (.node n) (.node { n with lastSeenAt := some now }) →
      Shape app (.heartbeat bearer id) tx
  | pushMetrics {bearer : Option Str} {id : Uuid} {samples : List NodeMetricSample}
      {tx : Transaction} {n : Node} {now : Time} {ups : List (Write Row Key)} :
      AsNode app tx bearer n → n.id = id →
      (∀ w ∈ ups, ∃ g, w.target = .nodeMetric n.id g) →
      tx.writes = ups ++ flushed (.node n) (.node { n with lastSeenAt := some now }) →
      Shape app (.pushMetrics bearer id samples) tx
  | drain {req : Request} {id : Uuid} {event : Event} {tx : Transaction} {n : Node} {u : User}
      {target : Option Uuid} {a : AuditLog} :
      Drains req id event → tx.Read (.byKey (.node id)) (.node n) → n.status ≠ .draining →
      tx.Found (.node n.id) →
      tx.writes = [.update (.node n) (.node { n with status := .draining }),
        .insert (.auditLog a)] →
      Logs tx a event (some n.userId)
        { nodeId := some n.id, actorUserId := some u.id, actorEmail := some u.email,
          targetUserId := target } →
      Shape app req tx
  | drained {req : Request} {id : Uuid} {event : Event} {tx : Transaction} {n : Node} :
      Drains req id event → tx.Read (.byKey (.node id)) (.node n) → n.status = .draining →
      tx.writes = [] → Shape app req tx
  | undrain {caller : Caller} {id : Uuid} {tx : Transaction} {n : Node} {u : User}
      {a : AuditLog} :
      tx.Read (.byKey (.node id)) (.node n) → n.status = .draining → tx.Found (.node n.id) →
      tx.writes = [.update (.node n) (.node { n with status := .online }),
        .insert (.auditLog a)] →
      Logs tx a .nodeUndrained (some n.userId)
        { nodeId := some n.id, actorUserId := some u.id, actorEmail := some u.email } →
      Shape app (.undrainNode caller id) tx
  | deleteNode {caller : Caller} {id : Uuid} {tx : Transaction} {n : Node} {u : User}
      {a : AuditLog} {e : Entry Row Key Cond} {view : Database} :
      tx.Read (.byKey (.node id)) (.node n) → tx.Missed (.runningForNode n.id) →
      e ∈ tx.log → view = e.db.insert (.auditLog a) → e.locks = deleteLocks view (.node n.id) →
      tx.writes = .insert (.auditLog a) ::
        ((referring view (.node n.id)).map (unrefWrite (.node n.id)) ++ [.delete (.node n.id)]) →
      Logs tx a .nodeRemoved (some n.userId)
        { nodeId := some n.id, actorUserId := some u.id, actorEmail := some u.email } →
      Shape app (.deleteNode caller id) tx
  | deletedNode {caller : Caller} {id : Uuid} {tx : Transaction} {n : Node} {u : User}
      {a : AuditLog} {e : Entry Row Key Cond} :
      tx.Read (.byKey (.node id)) (.node n) →
      e ∈ tx.log → e.stmt = .delete (.node n.id) → e.db.node n.id = none →
      tx.writes = [.insert (.auditLog a)] →
      Logs tx a .nodeRemoved (some n.userId)
        { nodeId := some n.id, actorUserId := some u.id, actorEmail := some u.email } →
      Shape app (.deleteNode caller id) tx
  | submitJob {caller : Caller} {p : SubmitJobRequest} {tx : Transaction} {u : User} {j : Job}
      {a : AuditLog} :
      AsUser tx u → u.status = .active →
      p.gpuCount * p.maxDurationSeconds ≤ u.creditsGpuHours * 3600 →
      j = { id := j.id, userId := u.id, dockerImage := p.dockerImage, command := p.command,
            gpuCount := p.gpuCount, maxDurationSeconds := p.maxDurationSeconds,
            preferredNodeId := p.preferredNodeId, createdAt := j.createdAt } →
      tx.Fresh (.job j.id) →
      tx.writes = [.insert (.job j), .insert (.auditLog a)] →
      Logs tx a .jobSubmitted (some u.id)
        { jobId := some j.id, dockerImage := some p.dockerImage, gpuCount := some p.gpuCount,
          maxDurationSeconds := some p.maxDurationSeconds, preferredNodeId := p.preferredNodeId } →
      Shape app (.submitJob caller p) tx
  | claimJob {bearer : Option Str} {tx : Transaction} {n : Node} {j : Job} {now : Time}
      {a : AuditLog} :
      AsNode app tx bearer n → n.status ≠ .draining → tx.Missed (.runningForNode n.id) →
      tx.Locked (.claimable n.id n.gpuCount) (.job j) →
      (j.assignedNodeId ≠ some n.id → tx.Found (.node n.id)) →
      tx.writes = [.update (.job j) (.job (j.claimedBy n.id now)), .insert (.auditLog a)] →
      Logs tx a .jobAssigned (some j.userId)
        { jobId := some j.id, nodeId := some n.id, gpuCount := some j.gpuCount } →
      Shape app (.claimJob bearer) tx
  | completeJob {bearer : Option Str} {id : Uuid} {p : CompleteJobRequest} {tx : Transaction}
      {n : Node} {j : Job} {completedAt now : Time} {owner : Option User} {hours : Int}
      {a : AuditLog} :
      AsNode app tx bearer n → tx.Read (.byKey (.job id)) (.job j) →
      j.assignedNodeId = some n.id →
      (j.status, completionTarget j p.exitCode) ∈ allowedTransitions →
      hours = billGpuHours (j.startedAt.getD completedAt) completedAt j.gpuCount →
      Owner tx hours j.userId owner → tx.Found (.job j.id) →
      tx.writes = .update (.job j) (.job (j.terminated (completionTarget j p.exitCode)
          (some p.exitCode) p.errorMessage now)) ::
        (billWrites hours owner ++ [.insert (.auditLog a)]) →
      Logs tx a (terminalEvent (completionTarget j p.exitCode)) (some j.userId)
        { jobId := some j.id, nodeId := some n.id, exitCode := some p.exitCode,
          billedGpuHours := some hours, errorMessage := p.errorMessage } →
      Shape app (.completeJob bearer id p) tx
  | cancelQueued {req : Request} {id : Uuid} {event : Event} {tx : Transaction} {j : Job}
      {now : Time} {u : User} {owner : Uuid} {target : Option Uuid} {a : AuditLog} :
      Cancels req id event → tx.Read (.byKey (.job id)) (.job j) → j.status = .queued →
      tx.Found (.job j.id) →
      tx.writes = [.update (.job j) (.job (j.terminated .cancelled none
        (some cancelledByUser) now)), .insert (.auditLog a)] →
      Logs tx a event (some owner)
        { jobId := some j.id, phase := some .queued, actorUserId := some u.id,
          actorEmail := some u.email, targetUserId := target } →
      Shape app req tx
  | requestCancel {req : Request} {id : Uuid} {event : Event} {tx : Transaction} {j : Job}
      {now : Time} {u : User} {owner : Uuid} {target : Option Uuid} {a : AuditLog} :
      Cancels req id event → tx.Read (.byKey (.job id)) (.job j) → j.status = .running →
      j.cancelRequestedAt = none → tx.Found (.job j.id) →
      tx.writes = [.update (.job j) (.job (j.cancelRequested now)), .insert (.auditLog a)] →
      Logs tx a event (some owner)
        { jobId := some j.id, phase := some .running, actorUserId := some u.id,
          actorEmail := some u.email, targetUserId := target } →
      Shape app req tx
  | cancelAgain {req : Request} {id : Uuid} {event : Event} {tx : Transaction} {j : Job}
      {u : User} {owner : Uuid} {target : Option Uuid} {a : AuditLog} :
      Cancels req id event → tx.Read (.byKey (.job id)) (.job j) → j.status = .running →
      j.cancelRequestedAt.isSome → tx.writes = [.insert (.auditLog a)] →
      Logs tx a event (some owner)
        { jobId := some j.id, phase := some .running, actorUserId := some u.id,
          actorEmail := some u.email, targetUserId := target } →
      Shape app req tx

/-- What a request in flight counts on about the commits of the others. -/
abbrev Rely := Request → Transaction → Database → Database → Prop

/-- No commit of another takes a claim token away. -/
def TokensStay (rely : Rely) : Prop :=
  ∀ req tx a b, rely req tx a b → ∀ id,
    (a.get (.claimToken id)).isSome → (b.get (.claimToken id)).isSome

/-- What an answer stands for, given the transactions its request has committed. -/
def Answer (app : App) (rely : Rely) (refusals : Prop) : Request → Except ApiError Response →
    List Transaction → Prop
  | .claimJob _, .ok (.assignment id _ _ _), past =>
    ∃ tx, past = [tx] ∧ ∃ j nodeId now rest,
      tx.writes = .update (.job j) (.job (j.claimedBy nodeId now)) :: rest ∧ j.id = id
  | .claimJob _, .ok _, past => past = []
  | .completeJob _ _ _, .ok _, past => ∃ tx, past = [tx]
  | .cancelJob _ _, .ok _, past => ∃ tx, past = [tx]
  | .forceKillJob _ _, .ok _, past => ∃ tx, past = [tx]
  | .drainNode _ _, .ok _, past => ∃ tx, past = [tx]
  | .forceDrainNode _ _, .ok _, past => ∃ tx, past = [tx]
  | .registerNode _ _, .ok _, past => ∃ tx, past = [tx]
  | .registerNode _ p, .error e, past =>
    past ≠ [] ∨ (∃ fault, e = .claimTokenInvalid fault) ∨ (refusals ∧ ∃ q, e = .database q) ∨
      (e = .staleData ∧ ¬ TokensStay rely) ∨ (e = .bcryptRaised ∧
        ((∃ hash, app.checkpw p.claimToken hash = none) ∨
          ∃ salt bytes, app.hashpw salt (agentTokenPrefix ++ app.tokenUrlsafe bytes) = none))
  | _, _, _ => True

/-- The specification of the control plane. -/
def platform (app : App) (rely : Rely) (refusals : Prop) :
    Spec Row Key Cond Request ApiError Response where
  rely := rely
  refusals := refusals
  shape := Shape app
  post := Answer app rely refusals

end GpuNetwork
