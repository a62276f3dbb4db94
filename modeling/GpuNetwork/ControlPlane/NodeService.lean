import GpuNetwork.ControlPlane.Accounts

/-!
# Nodes

`app/services/node_service` and `node_status` under the routes of
`app/controllers/nodes`.

* `computeNodeStatus` — the status the API shows.
* `createClaimToken`, `registerNode`, `heartbeat`, `pushMetrics`, `drainNode`,
  `undrainNode`, `deleteNode`, `forceDrainNode`.
-/

namespace GpuNetwork

open ReadCommitted

/-- `NODE_HEARTBEAT_TIMEOUT_SECONDS`. -/
def nodeHeartbeatTimeoutSeconds : Int := 60

/-- `compute_node_status`. -/
def computeNodeStatus (node : Node) (now : Time) : NodeStatus :=
  if node.status = .draining then .draining
  else
    match node.lastSeenAt with
    | none => .offline
    | some lastSeenAt =>
      if now - lastSeenAt ≤ nodeHeartbeatTimeoutSeconds * second then .online else .offline

/-- `uuid4().hex`. -/
def uuidHex (id : Uuid) : Str := (Nat.toDigits 16 id).leftpad 32 '0'

/-- `_default_node_name`. -/
def defaultNodeName : Handler Str := do
  let id ← uuid4
  pure ("node-".toList ++ (uuidHex id).take 6)

variable (app : App)

/-- `create_claim_token`. -/
def createClaimToken (caller : Caller) : Handler Response := do
  let host ← currentUser app caller.bearer
  if host.canHost then do
    let (plaintext, lookupPrefix, tokenHash) ← generateToken app claimTokenPrefix
    let now ← utcNow
    let expiresAt := now + app.settings.claimTokenTtlHours * 3600 * second
    let claim ← createClaimTokenRow host.id lookupPrefix tokenHash expiresAt
    let installCommand :=
      "gpu-agent init --control-plane=".toList ++ app.settings.controlPlanePublicUrl ++
        " --claim-token=".toList ++ plaintext
    createAudit .nodeClaimTokenCreated (some host.id)
      { lookupPrefix := some lookupPrefix, expiresAt := some expiresAt } caller.client
    commit
    match ← refresh (.claimToken claim.id) with
    | .claimToken claim =>
      pure (.claimToken plaintext claim.lookupPrefix installCommand claim.expiresAt)
    | _ => .throw .refreshFailed
  else .throw .notAHost

/-- `suggested_name or _default_node_name()`. -/
def nodeName : Option Str → Handler Str
  | some (c :: cs) => pure (c :: cs)
  | _ => defaultNodeName

/-- The checks of `register_node` on the claim token. -/
def checkClaimToken (token : Str) : Option ClaimToken → Handler ClaimToken
  | none => .throw (.claimTokenInvalid .unknownToken)
  | some claim => do
    let valid ← orRaise (app.checkpw token claim.tokenHash)
    if valid then
      if claim.consumedAt.isSome then .throw (.claimTokenInvalid .alreadyUsed)
      else do
        let now ← utcNow
        if claim.expiresAt ≤ now then .throw (.claimTokenInvalid .expired) else pure claim
    else .throw (.claimTokenInvalid .unknownToken)

/-- `register_node`. -/
def registerNode (client : Client) (p : RegisterNodeRequest) : Handler Response := do
  let found ← getClaimTokenByPrefix (lookupPrefix p.claimToken)
  let claim ← checkClaimToken app p.claimToken found
  let (agentToken, agentPrefix, agentHash) ← generateToken app agentTokenPrefix
  let name ← nodeName p.suggestedName
  let lastSeenAt ← utcNow
  let node ← createNode claim.userId name p.gpuModel p.gpuMemoryGb p.gpuCount agentPrefix
    agentHash lastSeenAt
  markConsumed claim
  createAudit .nodeRegistered (some claim.userId)
    { nodeId := some node.id, gpuModel := some p.gpuModel, gpuMemoryGb := some p.gpuMemoryGb,
      gpuCount := some p.gpuCount, claimTokenPrefix := some (lookupPrefix p.claimToken) }
    client
  commit
  let node ← refreshNode node.id
  pure (.registered node.id agentToken app.settings.controlPlanePublicUrl)

/-- The answer to a request about a node: its computed status and its current job. -/
def nodeDetail (node : Node) : Handler Response := do
  let current ← getRunningForNode node.id
  let now ← utcNow
  pure (.node node (computeNodeStatus node now) (current.map (·.id)))

/-- `heartbeat`. -/
def heartbeat (bearer : Option Str) (nodeId : Uuid) : Handler Response := do
  let node ← currentNode app bearer
  if node.id ≠ nodeId then .throw .agentMismatch
  else do
    updateLastSeen node
    commit
    let node ← refreshNode node.id
    let current ← getRunningForNode node.id
    let receivedAt ← utcNow
    let cancelJobId := current.bind fun job =>
      if job.cancelRequestedAt.isSome then some job.id else none
    pure (.heartbeat receivedAt cancelJobId)

/-- `record_metrics`. -/
def pushMetrics (bearer : Option Str) (nodeId : Uuid) (samples : List NodeMetricSample) :
    Handler Response := do
  let node ← currentNode app bearer
  if node.id ≠ nodeId then .throw .agentMismatch
  else do
    upsertSamples node.id samples
    updateLastSeen node
    commit
    pure .noContent

/-- `get_owned_node`. -/
def getOwnedNode (owner : User) (nodeId : Uuid) : Handler Node := do
  match ← getNodeById nodeId with
  | none => .throw (.nodeNotFound nodeId)
  | some node => if node.userId ≠ owner.id then .throw (.nodeNotFound nodeId) else pure node

/-- The part of `drain_node` and `admin_force_drain` that writes: nothing when the node
is draining already. -/
def drain (node : Node) (auditEvent : Event) (actor : User) (targetUserId : Option Uuid)
    (client : Client) : Handler Unit :=
  if node.status ≠ .draining then do
    setNodeStatus node .draining
    createAudit auditEvent (some node.userId)
      { nodeId := some node.id, actorUserId := some actor.id, actorEmail := some actor.email,
        targetUserId }
      client
  else pure ()

/-- `drain_node`. -/
def drainNode (caller : Caller) (nodeId : Uuid) : Handler Response := do
  let owner ← currentUser app caller.bearer
  let node ← getOwnedNode owner nodeId
  drain node .nodeDrained owner none caller.client
  commit
  let node ← refreshNode node.id
  nodeDetail node

/-- `undrain_node`. -/
def undrainNode (caller : Caller) (nodeId : Uuid) : Handler Response := do
  let owner ← currentUser app caller.bearer
  let node ← getOwnedNode owner nodeId
  if node.status ≠ .draining then .throw (.nodeNotDraining node.id node.status)
  else do
    setNodeStatus node .online
    createAudit .nodeUndrained (some node.userId)
      { nodeId := some node.id, actorUserId := some owner.id, actorEmail := some owner.email }
      caller.client
    commit
    let node ← refreshNode node.id
    nodeDetail node

/-- `admin_force_drain`. -/
def forceDrainNode (caller : Caller) (nodeId : Uuid) : Handler Response := do
  let admin ← requireAdmin app caller.bearer
  match ← getNodeById nodeId with
  | none => .throw (.nodeNotFound nodeId)
  | some node =>
    drain node .adminNodeForceDrained admin (some node.userId) caller.client
    commit
    let node ← refreshNode node.id
    nodeDetail node

/-- `delete_node`. -/
def deleteNode (caller : Caller) (nodeId : Uuid) : Handler Response := do
  let owner ← currentUser app caller.bearer
  let node ← getOwnedNode owner nodeId
  match ← getRunningForNode node.id with
  | some _ => .throw (.nodeBusy node.id)
  | none =>
    createAudit .nodeRemoved (some node.userId)
      { nodeId := some node.id, actorUserId := some owner.id, actorEmail := some owner.email }
      caller.client
    deleteNodeRow node
    commit
    pure .noContent

end GpuNetwork
