import GpuNetwork.ControlPlane.Repositories

/-!
# Accounts

`app/core/security`, `app/deps` and the services for users, API keys and the audit log.

* `currentUser`, `requireAdmin`, `currentNode` — who a request comes from.
* `signup`, `login`, `generateKey`, `revokeKey`, `approveUser`, `suspendUser`,
  `listAuditEvents`.
-/

namespace GpuNetwork

open ReadCommitted

/-! ## `security` -/

def apiKeyPrefix : Str := "gpuk_".toList

def claimTokenPrefix : Str := "gpuclaim_".toList

def agentTokenPrefix : Str := "gpuagent_".toList

/-- `*_LOOKUP_PREFIX_LENGTH`, the same for the three kinds of token. -/
def lookupPrefixLength : Nat := 12

/-- `*_lookup_prefix`. -/
def lookupPrefix (token : Str) : Str := token.take lookupPrefixLength

/-- What bcrypt answers; an exception of its is not handled. -/
def orRaise {α : Type} : Option α → Handler α
  | some a => pure a
  | none => .throw .bcryptRaised

variable (app : App)

/-- `generate_*`: a fresh token under its marker, its lookup prefix and its hash. -/
def generateToken (marker : Str) : Handler (Str × Str × Str) := do
  let bytes ← .exec .random
  let token := marker ++ app.tokenUrlsafe bytes
  let salt ← .exec .random
  let tokenHash ← orRaise (app.hashpw salt token)
  pure (token, lookupPrefix token, tokenHash)

/-- `create_access_token`. -/
def createAccessToken (subject : Uuid) : Handler Str := do
  let now ← utcNow
  pure (app.jwtEncode subject (now + app.settings.jwtExpireDays * 86400 * second))

/-! ## `deps` -/

/-- `ApiKeyService.authenticate`. -/
def authenticateKey (plaintext : Str) : Handler (Option User) := do
  match ← getApiKeyByPrefix (lookupPrefix plaintext) with
  | none => pure none
  | some apiKey =>
    if apiKey.revokedAt.isSome then pure none
    else do
      let valid ← orRaise (app.checkpw plaintext apiKey.hash)
      if valid then getUserById apiKey.userId else pure none

/-- `get_current_user`. -/
def currentUser : Option Str → Handler User
  | none => .throw .notAuthenticated
  | some token =>
    if apiKeyPrefix.isPrefixOf token then do
      match ← authenticateKey app token with
      | some user => pure user
      | none => .throw .invalidApiKey
    else do
      let now ← utcNow
      match app.jwtDecode now token with
      | none => .throw .invalidToken
      | some subject =>
        match uuid? subject with
        | none => .throw .invalidTokenSubject
        | some userId => do
          match ← getUserById userId with
          | some user => pure user
          | none => .throw .userNoLongerExists

/-- `require_admin`. -/
def requireAdmin (bearer : Option Str) : Handler User := do
  let user ← currentUser app bearer
  if user.isAdmin then pure user else .throw .adminRequired

/-- `NodeService.authenticate_agent`. -/
def authenticateAgent (token : Str) : Handler (Option Node) :=
  if agentTokenPrefix.isPrefixOf token then do
    match ← getNodeByAgentPrefix (lookupPrefix token) with
    | none => pure none
    | some node =>
      match node.agentTokenHash with
      | none => pure none
      | some tokenHash => do
        let valid ← orRaise (app.checkpw token tokenHash)
        if valid then pure (some node) else pure none
  else pure none

/-- `get_current_node`. -/
def currentNode : Option Str → Handler Node
  | none => .throw .notAuthenticated
  | some token => do
    match ← authenticateAgent app token with
    | some node => pure node
    | none => .throw .invalidAgentToken

/-! ## `AuthService` -/

def signup (client : Client) (p : SignupRequest) : Handler Response := do
  match ← getUserByEmail p.email with
  | some _ => .throw (.emailAlreadyExists p.email)
  | none =>
    let salt ← .exec .random
    let passwordHash ← orRaise (app.hashpw salt p.password)
    let user ← createUser p.email passwordHash
    createAudit .authSignup (some user.id) {} client
    commit
    let user ← refreshUser user.id
    pure (.user user)

def loginFailed (client : Client) (email : Str) (user : Option User) : Handler Response := do
  createAudit .authLoginFailed (user.map (·.id)) { email := some email } client
  commit
  .throw .invalidCredentials

def login (client : Client) (p : LoginRequest) : Handler Response := do
  match ← getUserByEmail p.email with
  | none => loginFailed client p.email none
  | some user =>
    let valid ← orRaise (app.checkpw p.password user.passwordHash)
    if valid then do
      createAudit .authLoginSuccess (some user.id) {} client
      commit
      let token ← createAccessToken app user.id
      pure (.token token (app.settings.jwtExpireDays * 86400))
    else loginFailed client p.email (some user)

/-! ## `ApiKeyService` -/

def generateKey (caller : Caller) (p : GenerateKeyRequest) : Handler Response := do
  let actor ← currentUser app caller.bearer
  if actor.status ≠ .active then .throw (.accountNotActive actor.status)
  else do
    let (plaintext, lookupPrefix, keyHash) ← generateToken app apiKeyPrefix
    let apiKey ← createApiKeyRow actor.id p.name lookupPrefix keyHash
    createAudit .apikeyCreated (some actor.id)
      { apiKeyId := some apiKey.id, name := some p.name, lookupPrefix := some lookupPrefix }
      caller.client
    commit
    match ← refresh (.apiKey apiKey.id) with
    | .apiKey apiKey => pure (.apiKeyGenerated apiKey plaintext)
    | _ => .throw .refreshFailed

def revokeKey (caller : Caller) (apiKeyId : Uuid) : Handler Response := do
  let actor ← currentUser app caller.bearer
  match ← getApiKeyById apiKeyId with
  | none => .throw (.apiKeyNotFound apiKeyId)
  | some apiKey =>
    if apiKey.userId ≠ actor.id then .throw .apiKeyNotOwned
    else if apiKey.revokedAt = none then do
      revokeApiKeyRow apiKey
      createAudit .apikeyRevoked (some actor.id)
        { apiKeyId := some apiKey.id, lookupPrefix := some apiKey.lookupPrefix } caller.client
      commit
      match ← refresh (.apiKey apiKey.id) with
      | .apiKey apiKey => pure (.apiKey apiKey)
      | _ => .throw .refreshFailed
    else pure (.apiKey apiKey)

/-! ## `AdminService` -/

/-- `get_by_id` in a session that has loaded the caller: the object mapper hands out
that same object when the identifier is the caller's. -/
def getUserFor (admin : User) (userId : Uuid) : Handler User := do
  match ← getUserById userId with
  | none => .throw (.userNotFound userId)
  | some user => if user.id = admin.id then pure admin else pure user

def approveUser (caller : Caller) (userId : Uuid) (p : ApproveRequest) : Handler Response := do
  let admin ← requireAdmin app caller.bearer
  let user ← getUserFor admin userId
  flush (.user user) (.user
    { user with
      status := .active, canHost := p.canHost, creditsGpuHours := p.creditsGpuHours })
  createAudit .userApproved (some user.id)
    { actorUserId := some admin.id, actorEmail := some admin.email, canHost := some p.canHost,
      creditsGpuHours := some p.creditsGpuHours }
    caller.client
  commit
  let user ← refreshUser user.id
  pure (.user user)

def suspendUser (caller : Caller) (userId : Uuid) : Handler Response := do
  let admin ← requireAdmin app caller.bearer
  let user ← getUserFor admin userId
  flush (.user user) (.user { user with status := .suspended })
  createAudit .userSuspended (some user.id)
    { actorUserId := some admin.id, actorEmail := some admin.email } caller.client
  commit
  let user ← refreshUser user.id
  pure (.user user)

def listAuditEvents (caller : Caller) (f : AuditFilter) (cursor : Option Str) (limit : Nat) :
    Handler Response := do
  let admin ← requireAdmin app caller.bearer
  let decoded ← cursorBound app cursor
  let rows ← listAudit app f decoded limit
  let next := nextCursor limit (rows.map fun r => (r.1.createdAt, r.1.id))
  createAudit .auditViewed (some admin.id)
    { actorEmail := some admin.email, filters := some f, resultCount := some rows.length }
    caller.client
  commit
  pure (.auditEvents rows next)

end GpuNetwork
