import GpuNetwork.ControlPlane.Queries

/-!
# The control plane

The routes, and the system they make up: a server over the tables that answers any
number of requests at a time.

* `handle` — the handler of a request.
* `controlPlane` — the server; `System` — its states.
* `plainApp` — a deployment whose libraries can be evaluated, for concrete runs.
-/

namespace GpuNetwork

open ReadCommitted

variable (app : App)

/-- `app/controllers`. -/
def handle : Request → Handler Response
  | .signup client p => signup app client p
  | .login client p => login app client p
  | .generateKey caller p => generateKey app caller p
  | .revokeKey caller apiKeyId => revokeKey app caller apiKeyId
  | .approveUser caller userId p => approveUser app caller userId p
  | .suspendUser caller userId => suspendUser app caller userId
  | .listAuditEvents caller f cursor limit => listAuditEvents app caller f cursor limit
  | .createClaimToken caller => createClaimToken app caller
  | .registerNode client p => registerNode app client p
  | .heartbeat bearer nodeId => heartbeat app bearer nodeId
  | .pushMetrics bearer nodeId samples => pushMetrics app bearer nodeId samples
  | .drainNode caller nodeId => drainNode app caller nodeId
  | .undrainNode caller nodeId => undrainNode app caller nodeId
  | .deleteNode caller nodeId => deleteNode app caller nodeId
  | .forceDrainNode caller nodeId => forceDrainNode app caller nodeId
  | .submitJob caller p => submitJob app caller p
  | .claimJob bearer => claimJob app bearer
  | .completeJob bearer jobId p => completeJob app bearer jobId p
  | .cancelJob caller jobId => cancelJob app caller jobId
  | .forceKillJob caller jobId => forceKillJob app caller jobId
  | .pushLogs bearer jobId entries => pushLogs app bearer jobId entries
  | .listUsers caller status emailQuery cursor limit =>
    listUsers app caller status emailQuery cursor limit
  | .getUserDetail caller userId => getUserDetail app caller userId
  | .getAuditEvent caller eventId => getAuditEvent app caller eventId
  | .dashboard caller => dashboard app caller
  | .listJobs caller status cursor limit => listJobs app caller status cursor limit
  | .getJob caller jobId => getJob app caller jobId
  | .getLogs caller jobId afterSequence limit => getLogs app caller jobId afterSequence limit

/-- The control plane as a server over its database. -/
def controlPlane : Server Row Key Cond Request ApiError Response where
  handle := handle app
  sqlError := .database

/-- A state of the control plane. -/
abbrev System := Sys Row Request ApiError Response

/-- A request that is being handled. -/
abbrev Pending := Thread Row Key Cond Request ApiError Response

/-- An open transaction of the control plane. -/
abbrev Transaction := Tx Row Key Cond

/-- No request has arrived yet. -/
def idle (db : Database) (clock : Time) : System := ⟨db, clock, []⟩

/-! ## A deployment for concrete runs -/

/-- The number a string of digits stands for. -/
def parseDigits (text : Str) : Option Nat :=
  if text.all Char.isDigit && !text.isEmpty then
    some (text.foldl (fun n c => 10 * n + (c.toNat - '0'.toNat)) 0)
  else none

theorem plainText_toDigits (n : Nat) : plainText (Nat.toDigits 10 n) = true := by
  have hmem : '\x00' ∉ Nat.toDigits 10 n := fun h =>
    absurd (Nat.isDigit_of_mem_toDigits (by omega) (by omega) h) (by decide)
  simpa [plainText] using hmem

/-- Tokens and hashes in plain text: a hash is the string itself, and a string with a NUL has
none; a session token is `jwt-` and the number of its user. -/
def plainApp : App where
  hashpw _ text := if plainText text then some text else none
  hashpw_plain _ text hash h := by
    split at h
    · rename_i hplain
      cases h
      exact hplain
    · cases h
  checkpw text hash := some (decide (text = hash))
  tokenUrlsafe n := Nat.toDigits 10 n
  tokenUrlsafe_plain := plainText_toDigits
  jwtEncode subject _ := "jwt-".toList ++ Nat.toDigits 10 subject
  jwtDecode _ token :=
    if "jwt-".toList.isPrefixOf token then (parseDigits (token.drop 4)).map uuidText else none

/-- The tokens that are drawn have hashes. -/
theorem hashes_plainApp : ∀ marker ∈ [apiKeyPrefix, claimTokenPrefix, agentTokenPrefix],
    ∀ salt bytes, (plainApp.hashpw salt (marker ++ plainApp.tokenUrlsafe bytes)).isSome := by
  intro marker hmarker salt bytes
  have hplain : ∀ marker ∈ [apiKeyPrefix, claimTokenPrefix, agentTokenPrefix],
      plainText marker = true := List.all_iff_forall_prop.1 (by decide)
  have htoken : plainText (marker ++ plainApp.tokenUrlsafe bytes) = true :=
    plainText_append (hplain marker hmarker) (plainApp.tokenUrlsafe_plain bytes)
  exact (congrArg Option.isSome (if_pos htoken)).trans rfl

/-- The next `n` statements of thread `i`, which draws the number `i` when it draws one. -/
def runs (i n : Nat) : List (Label Request) := List.replicate n (.run i i)

/-- An account with credits. -/
def sampleUser : User :=
  { id := 1, email := "host@example.org".toList, passwordHash := "password".toList,
    status := .active, canHost := true, creditsGpuHours := 10, createdAt := 0 }

/-- The agent token of `sampleNode`. -/
def sampleAgentToken : Str := "gpuagent_node".toList

def sampleNode : Node :=
  { id := 2, userId := 1, name := "node".toList, gpuModel := "gpu".toList, gpuMemoryGb := 24,
    gpuCount := 1, status := .online, agentTokenHash := some sampleAgentToken,
    agentTokenPrefix := some (lookupPrefix sampleAgentToken), createdAt := 0 }

/-- A job in the queue. -/
def sampleJob : Job :=
  { id := 3, userId := 1, dockerImage := "image".toList, command := ["run".toList],
    gpuCount := 1, maxDurationSeconds := 60, createdAt := 0 }

/-- The submission of `sampleJob`. -/
def sampleSubmission : SubmitJobRequest where
  dockerImage := "image".toList
  command := ["run".toList]
  gpuCount := 1
  maxDurationSeconds := 60
  dockerImage_length := by decide
  command_length := by decide
  command_nonempty := by decide
  gpuCount_range := by decide
  maxDurationSeconds_range := by decide

/-- The owner of `sampleUser`'s session. -/
def sampleCaller : Caller := { bearer := some "jwt-1".toList }

/-- The agent reports success. -/
def exitZero : CompleteJobRequest where
  exitCode := 0
  exitCode_range := by decide
  errorMessage_length := by simp

end GpuNetwork
