import GpuNetwork.Jobs.Canceller
import GpuNetwork.Store.Journal

/-!
# Requests are all or nothing

Every handler commits at most once, and only reads after that.  What a client is told
says what became of its request: a success, that it is in the store; a refusal, that the
store is as if it had never been made, apart from the record of a failed login.

* `Idle` — the answers that stand for no commit; `Late` — the errors that can follow one.
* `atomic_signup`, `atomic_claimJob`, … — the handlers.
* `requests_are_all_or_nothing` — the journal of a run, and what the answers tell of it.
-/

namespace GpuNetwork

open ReadCommitted ReadCommitted.Prog ReadCommitted.Spec

variable {app : App}

/-! ## Statements before the commit -/

/-- The program does not commit. -/
abbrev Uncommitted {α : Type} (x : Handler α) : Prop := x.Emits fun q => q ≠ .commit

variable {α β : Type}

theorem uncommitted_of_reads {x : Handler α} (h : Reads x) : Uncommitted x :=
  h.mono fun q hq he => by subst he; cases hq

theorem uncommitted_of_stays {x : Handler α} (h : x.Emits Stmt.stays) : Uncommitted x :=
  h.mono fun _ hq => hq.1

theorem uncommitted_flush (old new : Row) : Uncommitted (flush old new) :=
  uncommitted_of_stays (stays_flush old new)

theorem uncommitted_createAudit (event : Event) (userId : Option Uuid) (data : EventData)
    (client : Client) : Uncommitted (createAudit event userId data client) :=
  uncommitted_of_stays (stays_createAudit event userId data client)

/-- An `INSERT` of a row with a fresh identifier and the time of the transaction. -/
theorem uncommitted_inserted {row : Uuid → Time → Row} {result : Uuid → Time → α} :
    Uncommitted (do
      let id ← uuid4
      let createdAt ← .exec .txTime
      .exec (.insert (row id createdAt))
      pure (result id createdAt) : Handler α) :=
  ⟨by simp, fun _ => ⟨by simp, fun _ => ⟨by simp, fun _ => trivial⟩⟩⟩

theorem uncommitted_generateToken (marker : Str) : Uncommitted (generateToken app marker) :=
  emits_bind (emits_exec (by simp)) fun _ => emits_bind (emits_exec (by simp)) fun _ =>
    emits_bind (uncommitted_of_reads (reads_orRaise _)) fun _ => trivial

/-- The flush of an object with the current time. -/
theorem uncommitted_stamped {old : Row} {new : Time → Row} : Uncommitted (do
      let now ← utcNow
      flush old (new now) : Handler Unit) :=
  ⟨by simp, fun _ => uncommitted_flush _ _⟩

theorem uncommitted_checkClaimToken (token : Str) (found : Option ClaimToken) :
    Uncommitted (checkClaimToken app token found) := by
  cases found with
  | none => trivial
  | some claim =>
    refine emits_bind (uncommitted_of_reads (reads_orRaise _)) fun valid => ?_
    split
    · split
      · trivial
      · refine emits_bind (emits_exec (by simp)) fun now => ?_
        split <;> trivial
    · trivial

theorem uncommitted_nodeName (suggestedName : Option Str) :
    Uncommitted (nodeName suggestedName) := by
  unfold nodeName
  split
  · trivial
  · exact ⟨by simp, fun _ => trivial⟩

theorem stays_drain (node : Node) (event : Event) (actor : User) (target : Option Uuid)
    (client : Client) : (drain node event actor target client).Emits Stmt.stays := by
  unfold drain
  split
  · exact emits_bind (stays_flush _ _) fun _ => stays_createAudit _ _ _ _
  · trivial

theorem uncommitted_upsertSamples (nodeId : Uuid) (samples : List NodeMetricSample) :
    Uncommitted (upsertSamples nodeId samples) := by
  unfold upsertSamples
  split
  · trivial
  · exact ⟨by simp, fun _ => ⟨by simp, fun _ => trivial⟩⟩

theorem uncommitted_lockFirst (w : Cond) (rows : List Row) : Uncommitted (lockFirst w rows) := by
  induction rows with
  | nil => trivial
  | cons r rs ih =>
    refine emits_bind (emits_exec (by simp)) fun found => ?_
    split
    · trivial
    · exact ih

theorem uncommitted_claimNextForNode (nodeId : Uuid) (gpuCapacity : Int) :
    Uncommitted (claimNextForNode nodeId gpuCapacity) := by
  refine emits_bind (emits_exec (by simp)) fun rows => ?_
  refine emits_bind (uncommitted_lockFirst _ _) fun found => ?_
  cases found with
  | none => trivial
  | some job =>
    exact emits_bind (emits_exec (by simp)) fun _ =>
      emits_bind (uncommitted_flush _ _) fun _ => trivial

theorem uncommitted_flushBill (hours : Int) (owner : Option User) :
    Uncommitted (flushBill hours owner) := by
  cases owner with
  | none => trivial
  | some u => exact uncommitted_flush _ _

theorem uncommitted_logRows (jobId : Uuid) (receivedAt : Time) (entries : List JobLogEntryIn) :
    Uncommitted (logRows jobId receivedAt entries) := by
  induction entries with
  | nil => trivial
  | cons e es ih =>
    exact emits_bind (emits_exec (by simp)) fun _ => emits_bind ih fun _ => trivial

theorem uncommitted_appendLogs (jobId : Uuid) (entries : List JobLogEntryIn) :
    Uncommitted (appendLogs jobId entries) := by
  unfold appendLogs
  split
  · trivial
  · exact emits_bind (emits_exec (by simp)) fun _ =>
      emits_bind (uncommitted_logRows _ _ _) fun _ => emits_exec (by simp)

theorem reads_getUserFor (admin : User) (userId : Uuid) : Reads (getUserFor admin userId) := by
  refine emits_bind (reads_selectUser _) fun u => ?_
  cases u with
  | none => trivial
  | some u =>
    dsimp only
    split <;> trivial

theorem reads_getOwnedNode (owner : User) (nodeId : Uuid) : Reads (getOwnedNode owner nodeId) := by
  refine emits_bind (reads_selectNode _) fun n => ?_
  cases n with
  | none => trivial
  | some n =>
    dsimp only
    split <;> trivial

/-! ## What answers stand for -/

/-- The answer stands for no commit: the request only reads, or there was nothing to do. -/
def Idle : Request → Response → Prop
  | .claimJob _, r => r = .noContent
  | .pushLogs _ _ entries, r => entries = [] ∧ r = .noContent
  | .revokeKey _ _, r => ∃ k, r = .apiKey k ∧ k.revokedAt.isSome
  | .listUsers _ _ _ _ _, _ => True
  | .getUserDetail _ _, _ => True
  | .getAuditEvent _ _, _ => True
  | .dashboard _, _ => True
  | .listJobs _ _ _ _, _ => True
  | .getJob _ _, _ => True
  | .getLogs _ _ _ _, _ => True
  | _, _ => False

/-- The error can be raised after the commit: the row is gone when it is read again, the
database refuses to read it, or the login was wrong. -/
def Late (req : Request) (e : ApiError) : Prop :=
  e = .refreshFailed ∨ (∃ q, e = .database q) ∨
    (e = .invalidCredentials ∧ ∃ client p, req = .login client p)

variable {req : Request}

theorem settled_refresh (k : Key) : (refresh k).Settled (Late req) := by
  refine settled_exec_bind rfl fun r => ?_
  cases r with
  | none => exact Or.inl rfl
  | some r => trivial

theorem settled_refreshUser (id : Uuid) : (refreshUser id).Settled (Late req) := by
  refine settled_bind (settled_refresh _) fun r => ?_
  split
  · trivial
  · exact Or.inl rfl

theorem settled_refreshNode (id : Uuid) : (refreshNode id).Settled (Late req) := by
  refine settled_bind (settled_refresh _) fun r => ?_
  split
  · trivial
  · exact Or.inl rfl

theorem settled_refreshJob (id : Uuid) : (refreshJob id).Settled (Late req) := by
  refine settled_bind (settled_refresh _) fun r => ?_
  split
  · trivial
  · exact Or.inl rfl

theorem settled_getRunningForNode (nodeId : Uuid) :
    (getRunningForNode nodeId).Settled (Late req) := by
  refine settled_exec_bind rfl fun r => ?_
  split <;> trivial

theorem settled_nodeDetail (node : Node) : (nodeDetail node).Settled (Late req) :=
  settled_bind (settled_getRunningForNode _) fun _ => settled_exec_bind rfl fun _ => trivial

/-! ## The handlers -/

/-- The handler of the request commits at most once, and only reads after that. -/
abbrev Whole (req : Request) (x : Handler Response) : Prop := x.Atomic (Late req) (Idle req)

/-- A handler first finds out who the request is from, or about. -/
theorem whole_bind_of_reads {x : Handler β} {f : β → Handler Response} (hx : Reads x)
    (hf : ∀ b, Whole req (f b)) : Whole req (x >>= f) :=
  atomic_bind (uncommitted_of_reads hx) hf

theorem atomic_signup (client : Client) (p : SignupRequest) :
    Whole (.signup client p) (signup app client p) := by
  refine whole_bind_of_reads (reads_selectUser _) fun u => ?_
  cases u with
  | some u => trivial
  | none =>
    refine atomic_exec_bind (by simp) fun salt => ?_
    refine whole_bind_of_reads (reads_orRaise _) fun passwordHash => ?_
    refine atomic_bind uncommitted_inserted fun user => ?_
    refine atomic_bind (uncommitted_createAudit _ _ _ _) fun _ => atomic_commit_bind ?_
    exact settled_bind (settled_refreshUser _) fun _ => trivial

theorem atomic_loginFailed (client : Client) (p : LoginRequest) (email : Str)
    (user : Option User) : Whole (.login client p) (loginFailed client email user) := by
  refine atomic_bind (uncommitted_createAudit _ _ _ _) fun _ => atomic_commit_bind ?_
  exact Or.inr (Or.inr ⟨rfl, client, p, rfl⟩)

theorem atomic_login (client : Client) (p : LoginRequest) :
    Whole (.login client p) (login app client p) := by
  refine whole_bind_of_reads (reads_selectUser _) fun u => ?_
  cases u with
  | none => exact atomic_loginFailed _ _ _ _
  | some u =>
    refine whole_bind_of_reads (reads_orRaise _) fun valid => ?_
    split
    · refine atomic_bind (uncommitted_createAudit _ _ _ _) fun _ => atomic_commit_bind ?_
      exact settled_exec_bind rfl fun _ => trivial
    · exact atomic_loginFailed _ _ _ _

theorem atomic_generateKey (caller : Caller) (p : GenerateKeyRequest) :
    Whole (.generateKey caller p) (generateKey app caller p) := by
  refine whole_bind_of_reads (reads_currentUser _) fun actor => ?_
  split
  · trivial
  · refine atomic_bind (uncommitted_generateToken _) fun token => ?_
    refine atomic_bind uncommitted_inserted fun apiKey => ?_
    refine atomic_bind (uncommitted_createAudit _ _ _ _) fun _ => atomic_commit_bind ?_
    refine settled_bind (settled_refresh _) fun r => ?_
    split
    · trivial
    · exact Or.inl rfl

theorem atomic_revokeKey (caller : Caller) (apiKeyId : Uuid) :
    Whole (.revokeKey caller apiKeyId) (revokeKey app caller apiKeyId) := by
  refine whole_bind_of_reads (reads_currentUser _) fun actor => ?_
  refine whole_bind_of_reads (reads_selectApiKey _) fun k => ?_
  cases k with
  | none => trivial
  | some k =>
    dsimp only
    split
    · trivial
    · split
      · refine atomic_bind uncommitted_stamped fun _ => ?_
        refine atomic_bind (uncommitted_createAudit _ _ _ _) fun _ => atomic_commit_bind ?_
        refine settled_bind (settled_refresh _) fun r => ?_
        split
        · trivial
        · exact Or.inl rfl
      · rename_i hrevoked
        exact ⟨k, rfl, Option.isSome_iff_ne_none.2 hrevoked⟩

theorem atomic_approveUser (caller : Caller) (userId : Uuid) (p : ApproveRequest) :
    Whole (.approveUser caller userId p) (approveUser app caller userId p) := by
  refine whole_bind_of_reads (reads_requireAdmin _) fun admin => ?_
  refine whole_bind_of_reads (reads_getUserFor _ _) fun user => ?_
  refine atomic_bind (uncommitted_flush _ _) fun _ => ?_
  refine atomic_bind (uncommitted_createAudit _ _ _ _) fun _ => atomic_commit_bind ?_
  exact settled_bind (settled_refreshUser _) fun _ => trivial

theorem atomic_suspendUser (caller : Caller) (userId : Uuid) :
    Whole (.suspendUser caller userId) (suspendUser app caller userId) := by
  refine whole_bind_of_reads (reads_requireAdmin _) fun admin => ?_
  refine whole_bind_of_reads (reads_getUserFor _ _) fun user => ?_
  refine atomic_bind (uncommitted_flush _ _) fun _ => ?_
  refine atomic_bind (uncommitted_createAudit _ _ _ _) fun _ => atomic_commit_bind ?_
  exact settled_bind (settled_refreshUser _) fun _ => trivial

theorem atomic_listAuditEvents (caller : Caller) (f : AuditFilter) (cursor : Option Str)
    (limit : Nat) :
    Whole (.listAuditEvents caller f cursor limit) (listAuditEvents app caller f cursor limit) := by
  refine whole_bind_of_reads (reads_requireAdmin _) fun admin => ?_
  refine whole_bind_of_reads (reads_cursorBound _) fun decoded => ?_
  refine whole_bind_of_reads (reads_listAudit _ _ _) fun rows => ?_
  refine atomic_bind (uncommitted_createAudit _ _ _ _) fun _ => atomic_commit_bind ?_
  trivial

theorem atomic_createClaimToken (caller : Caller) :
    Whole (.createClaimToken caller) (createClaimToken app caller) := by
  refine whole_bind_of_reads (reads_currentUser _) fun host => ?_
  split
  · refine atomic_bind (uncommitted_generateToken _) fun token => ?_
    refine atomic_exec_bind (by simp) fun now => ?_
    refine atomic_bind uncommitted_inserted fun claim => ?_
    refine atomic_bind (uncommitted_createAudit _ _ _ _) fun _ => atomic_commit_bind ?_
    refine settled_bind (settled_refresh _) fun r => ?_
    split
    · trivial
    · exact Or.inl rfl
  · trivial

theorem atomic_registerNode (client : Client) (p : RegisterNodeRequest) :
    Whole (.registerNode client p) (registerNode app client p) := by
  refine whole_bind_of_reads (emits_bind (emits_exec rfl) fun r => ?_) fun found => ?_
  · split <;> trivial
  refine atomic_bind (uncommitted_checkClaimToken _ _) fun claim => ?_
  refine atomic_bind (uncommitted_generateToken _) fun token => ?_
  refine atomic_bind (uncommitted_nodeName _) fun name => ?_
  refine atomic_exec_bind (by simp) fun lastSeenAt => ?_
  refine atomic_bind uncommitted_inserted fun node => ?_
  refine atomic_bind uncommitted_stamped fun _ => ?_
  refine atomic_bind (uncommitted_createAudit _ _ _ _) fun _ => atomic_commit_bind ?_
  exact settled_bind (settled_refreshNode _) fun _ => trivial

theorem atomic_heartbeat (bearer : Option Str) (nodeId : Uuid) :
    Whole (.heartbeat bearer nodeId) (heartbeat app bearer nodeId) := by
  refine whole_bind_of_reads (reads_currentNode _) fun node => ?_
  split
  · trivial
  · refine atomic_bind uncommitted_stamped fun _ => atomic_commit_bind ?_
    refine settled_bind (settled_refreshNode _) fun node => ?_
    exact settled_bind (settled_getRunningForNode _) fun current =>
      settled_exec_bind rfl fun now => trivial

theorem atomic_pushMetrics (bearer : Option Str) (nodeId : Uuid)
    (samples : List NodeMetricSample) :
    Whole (.pushMetrics bearer nodeId samples) (pushMetrics app bearer nodeId samples) := by
  refine whole_bind_of_reads (reads_currentNode _) fun node => ?_
  split
  · trivial
  · refine atomic_bind (uncommitted_upsertSamples _ _) fun _ => ?_
    exact atomic_bind uncommitted_stamped fun _ => atomic_commit_bind trivial

/-- The common end of the requests that drain a node or undrain it. -/
theorem settled_detail (nodeId : Uuid) :
    (refreshNode nodeId >>= nodeDetail).Settled (Late req) :=
  settled_bind (settled_refreshNode _) fun _ => settled_nodeDetail _

theorem atomic_drainNode (caller : Caller) (nodeId : Uuid) :
    Whole (.drainNode caller nodeId) (drainNode app caller nodeId) := by
  refine whole_bind_of_reads (reads_currentUser _) fun owner => ?_
  refine whole_bind_of_reads (reads_getOwnedNode _ _) fun node => ?_
  exact atomic_bind (uncommitted_of_stays (stays_drain _ _ _ _ _)) fun _ =>
    atomic_commit_bind (settled_detail _)

theorem atomic_undrainNode (caller : Caller) (nodeId : Uuid) :
    Whole (.undrainNode caller nodeId) (undrainNode app caller nodeId) := by
  refine whole_bind_of_reads (reads_currentUser _) fun owner => ?_
  refine whole_bind_of_reads (reads_getOwnedNode _ _) fun node => ?_
  split
  · trivial
  · refine atomic_bind (uncommitted_flush _ _) fun _ => ?_
    exact atomic_bind (uncommitted_createAudit _ _ _ _) fun _ =>
      atomic_commit_bind (settled_detail _)

theorem atomic_forceDrainNode (caller : Caller) (nodeId : Uuid) :
    Whole (.forceDrainNode caller nodeId) (forceDrainNode app caller nodeId) := by
  refine whole_bind_of_reads (reads_requireAdmin _) fun admin => ?_
  refine whole_bind_of_reads (reads_selectNode _) fun n => ?_
  cases n with
  | none => trivial
  | some node =>
    exact atomic_bind (uncommitted_of_stays (stays_drain _ _ _ _ _)) fun _ =>
    atomic_commit_bind (settled_detail _)

theorem atomic_deleteNode (caller : Caller) (nodeId : Uuid) :
    Whole (.deleteNode caller nodeId) (deleteNode app caller nodeId) := by
  refine whole_bind_of_reads (reads_currentUser _) fun owner => ?_
  refine whole_bind_of_reads (reads_getOwnedNode _ _) fun node => ?_
  refine whole_bind_of_reads (reads_selectJob _) fun current => ?_
  cases current with
  | some job => trivial
  | none =>
    refine atomic_bind (uncommitted_createAudit _ _ _ _) fun _ => ?_
    exact atomic_exec_bind (by simp) fun matched => atomic_commit_bind trivial

theorem atomic_submitJob (caller : Caller) (p : SubmitJobRequest) :
    Whole (.submitJob caller p) (submitJob app caller p) := by
  refine whole_bind_of_reads (reads_currentUser _) fun actor => ?_
  split
  · trivial
  · split
    · trivial
    · refine atomic_bind uncommitted_inserted fun job => ?_
      refine atomic_bind (uncommitted_createAudit _ _ _ _) fun _ => atomic_commit_bind ?_
      exact settled_bind (settled_refreshJob _) fun _ => trivial

theorem atomic_claimJob (bearer : Option Str) :
    Whole (.claimJob bearer) (claimJob app bearer) := by
  refine whole_bind_of_reads (reads_currentNode _) fun node => ?_
  -- a claim that gives no job has rolled back what it may have done
  refine atomic_bind_settled (fun found => found = none) ?_ (fun found => ?_)
    fun found hnone => ?_
  · unfold claimForNode
    split
    · exact rfl
    refine atomic_bind (uncommitted_of_reads (reads_selectJob _)) fun current => ?_
    cases current with
    | some job => exact rfl
    | none =>
      refine atomic_bind (uncommitted_claimNextForNode _ _) fun found => ?_
      cases found with
      | none => exact atomic_exec_bind (by simp) fun _ => rfl
      | some job =>
        refine atomic_bind (uncommitted_createAudit _ _ _ _) fun _ => atomic_commit_bind ?_
        exact settled_bind (settled_refreshJob _) fun _ => trivial
  · cases found <;> trivial
  · subst hnone
    exact rfl

theorem atomic_completeJob (bearer : Option Str) (jobId : Uuid) (p : CompleteJobRequest) :
    Whole (.completeJob bearer jobId p) (completeJob app bearer jobId p) := by
  refine whole_bind_of_reads (reads_currentNode _) fun node => ?_
  refine atomic_bind_settled (fun _ => False) ?_ (fun _ => trivial)
    fun job hnever => hnever.elim
  refine atomic_bind (uncommitted_of_reads (reads_selectJob _)) fun found => ?_
  cases found with
  | none => trivial
  | some job =>
    dsimp only
    split
    · trivial
    · refine atomic_bind (uncommitted_of_stays (stays_assertTransition _ _)) fun _ => ?_
      refine atomic_exec_bind (by simp) fun completedAt => ?_
      refine atomic_bind (uncommitted_of_reads (reads_selectUser _)) fun owner => ?_
      refine atomic_exec_bind (by simp) fun now => ?_
      refine atomic_bind (uncommitted_flush _ _) fun _ => ?_
      refine atomic_bind (uncommitted_flushBill _ _) fun _ => ?_
      refine atomic_bind (uncommitted_createAudit _ _ _ _) fun _ => atomic_commit_bind ?_
      exact settled_refreshJob _

theorem atomic_cancelOrRequestCancel {idle : Job → Prop} (job : Job) (event : Event)
    (actor : User) (auditUserId : Uuid) (target : Option Uuid) (client : Client) :
    (cancelOrRequestCancel job event actor auditUserId target client).Atomic (Late req) idle := by
  have hrest : ∀ x : Unit, (do
      let phase ← cancelWrite job
      createAudit event (some auditUserId)
        { jobId := some job.id, phase := some phase, actorUserId := some actor.id,
          actorEmail := some actor.email, targetUserId := target } client
      commit
      refreshJob job.id : Handler Job).Atomic (Late req) idle := fun _ =>
    atomic_bind (uncommitted_of_stays (stays_cancelWrite _)) fun phase =>
      atomic_bind (uncommitted_createAudit _ _ _ _) fun _ =>
        atomic_commit_bind (settled_refreshJob _)
  unfold cancelOrRequestCancel
  split
  · exact atomic_bind (uncommitted_of_stays (stays_assertTransition _ _)) hrest
  · exact hrest ()

theorem atomic_cancelJob (caller : Caller) (jobId : Uuid) :
    Whole (.cancelJob caller jobId) (cancelJob app caller jobId) := by
  refine whole_bind_of_reads (reads_currentUser _) fun owner => ?_
  refine whole_bind_of_reads (reads_selectJob _) fun found => ?_
  cases found with
  | none => trivial
  | some job =>
    dsimp only
    split
    · trivial
    · exact atomic_bind_settled (fun _ => False) (atomic_cancelOrRequestCancel _ _ _ _ _ _)
        (fun _ => trivial) fun _ hnever => hnever.elim

theorem atomic_forceKillJob (caller : Caller) (jobId : Uuid) :
    Whole (.forceKillJob caller jobId) (forceKillJob app caller jobId) := by
  refine whole_bind_of_reads (reads_requireAdmin _) fun admin => ?_
  refine whole_bind_of_reads (reads_selectJob _) fun found => ?_
  cases found with
  | none => trivial
  | some job =>
    exact atomic_bind_settled (fun _ => False) (atomic_cancelOrRequestCancel _ _ _ _ _ _)
      (fun _ => trivial) fun _ hnever => hnever.elim

theorem atomic_pushLogs (bearer : Option Str) (jobId : Uuid) (entries : List JobLogEntryIn) :
    Whole (.pushLogs bearer jobId entries) (pushLogs app bearer jobId entries) := by
  refine whole_bind_of_reads (reads_currentNode _) fun node => ?_
  split
  · rename_i hempty
    exact ⟨List.isEmpty_iff.1 hempty, rfl⟩
  · refine whole_bind_of_reads (reads_selectJob _) fun found => ?_
    cases found with
    | none => trivial
    | some job =>
      dsimp only
      split
      · trivial
      · exact atomic_bind (uncommitted_appendLogs _ _) fun _ => atomic_commit_bind trivial

theorem atomic_handle (app : App) (req : Request) : Whole req (handle app req) := by
  cases req with
  | signup client p => exact atomic_signup client p
  | login client p => exact atomic_login client p
  | generateKey caller p => exact atomic_generateKey caller p
  | revokeKey caller id => exact atomic_revokeKey caller id
  | approveUser caller id p => exact atomic_approveUser caller id p
  | suspendUser caller id => exact atomic_suspendUser caller id
  | listAuditEvents caller f cursor limit => exact atomic_listAuditEvents caller f cursor limit
  | createClaimToken caller => exact atomic_createClaimToken caller
  | registerNode client p => exact atomic_registerNode client p
  | heartbeat bearer id => exact atomic_heartbeat bearer id
  | pushMetrics bearer id samples => exact atomic_pushMetrics bearer id samples
  | drainNode caller id => exact atomic_drainNode caller id
  | undrainNode caller id => exact atomic_undrainNode caller id
  | deleteNode caller id => exact atomic_deleteNode caller id
  | forceDrainNode caller id => exact atomic_forceDrainNode caller id
  | submitJob caller p => exact atomic_submitJob caller p
  | claimJob bearer => exact atomic_claimJob bearer
  | completeJob bearer id p => exact atomic_completeJob bearer id p
  | cancelJob caller id => exact atomic_cancelJob caller id
  | forceKillJob caller id => exact atomic_forceKillJob caller id
  | pushLogs bearer id entries => exact atomic_pushLogs bearer id entries
  | listUsers caller status emailQuery cursor limit =>
    exact atomic_of_reads (reads_listUsers _ _ _ _ _) fun _ => trivial
  | getUserDetail caller id => exact atomic_of_reads (reads_getUserDetail _ _) fun _ => trivial
  | getAuditEvent caller id => exact atomic_of_reads (reads_getAuditEvent _ _) fun _ => trivial
  | dashboard caller => exact atomic_of_reads (reads_dashboard _) fun _ => trivial
  | listJobs caller status cursor limit =>
    exact atomic_of_reads (reads_listJobs _ _ _ _) fun _ => trivial
  | getJob caller id => exact atomic_of_reads (reads_getJob _ _) fun _ => trivial
  | getLogs caller id afterSequence limit =>
    exact atomic_of_reads (reads_getLogs _ _ _ _) fun _ => trivial

/-! ## Whole runs -/

/-- Every transaction has the shape of its request. -/
theorem shape_of_reach {s₀ s : System} (h₀ : s₀.threads = [])
    (h : Reach (controlPlane app) anyTerms s₀ s) {i : Nat} {th : Pending}
    (hi : s.threads[i]? = some th) {tx : Transaction} (htx : tx ∈ th.ses.past) :
    Shape app th.req tx := by
  have hC : (platform app (fun _ _ _ _ => True) True).Chronicle (controlPlane app) anyTerms
      (fun _ => True) fun req tx _ => Shape app req tx :=
    { kept := fun _ _ _ hs _ _ => kept_of_commits (P := platform app (fun _ _ _ _ => True) True)
        trivial (fun _ _ _ _ _ _ => trivial) hs
      inv := fun _ _ _ _ _ _ _ _ _ => trivial
      new := fun _ _ _ _ _ _ _ hcom _ => hcom.shape
      old := fun _ _ _ _ _ _ _ _ _ _ _ hG => hG }
  exact (history (platform_valid app _ _) hC h₀ trivial h).2.2 i th hi tx htx

/-- The request has left the record of a failed login, and nothing else. -/
def LoginFailed (req : Request) (past : List Transaction) : Prop :=
  ∃ client p tx a, req = .login client p ∧ past = [tx] ∧ tx.writes = [.insert (.auditLog a)]

/-- What the answer to a request says about the transactions it has committed. -/
structure AllOrNothing (req : Request) (prog : Handler Response) (past : List Transaction) :
    Prop where
  once : past.length ≤ 1
  /-- A success is committed, if there was anything to commit. -/
  done : ∀ r, prog = .ret r → past = [] → Idle req r
  /-- A refusal leaves nothing but the record of a failed login. -/
  refused : ∀ e, prog = .throw e → e.statusCode ≠ 500 →
    past = [] ∨ (e = .invalidCredentials ∧ LoginFailed req past)
  /-- A failure tells nothing when it comes from the database, or from the row that was to be
  read again. -/
  failed : ∀ e, prog = .throw e → e.statusCode = 500 →
    past = [] ∨ e = .refreshFailed ∨ ∃ q, e = .database q

theorem allOrNothing_of_run {s₀ s : System} (h₀ : s₀.threads = [])
    (h : Reach (controlPlane app) anyTerms s₀ s) {i : Nat} {th : Pending}
    (hi : s.threads[i]? = some th) : AllOrNothing th.req th.prog th.ses.past := by
  have hlate : ∀ req q, Late req ((controlPlane app).sqlError q) :=
    fun _ q => Or.inr (Or.inl ⟨q, rfl⟩)
  have hall : th.AllOrNothing Late Idle :=
    allOrNothing_of_reach (atomic_handle app) hlate h₀ h hi
  rcases hall with ⟨hpast, hatomic⟩ | ⟨tx, hpast, hsettled⟩
  · rw [hpast]
    refine ⟨Nat.zero_le _, fun r hr _ => ?_, fun _ _ _ => Or.inl rfl, fun _ _ _ => Or.inl rfl⟩
    rw [hr] at hatomic
    exact hatomic
  · refine ⟨by rw [hpast]; rfl, fun r _ hnil => ?_, fun e he hcode => ?_, fun e he hcode => ?_⟩
    · rw [hpast] at hnil
      cases hnil
    · rw [he] at hsettled
      rcases hsettled with rfl | ⟨q, rfl⟩ | ⟨rfl, client, p, hreq⟩
      · exact absurd rfl hcode
      · exact absurd rfl hcode
      · have htx : tx ∈ th.ses.past := by rw [hpast]; exact List.mem_singleton_self _
        have hshape := shape_of_reach h₀ h hi htx
        rw [hreq] at hshape
        cases hshape with
        | aside ha =>
          cases ha with
          | login hw => exact Or.inr ⟨rfl, client, p, tx, _, hreq, hpast, hw⟩
        | sets hs => cases hs
        | drain hd => cases hd
        | drained hd => cases hd
        | cancelQueued hc => cases hc
        | requestCancel hc => cases hc
        | cancelAgain hc => cases hc
    · rw [he] at hsettled
      rcases hsettled with rfl | ⟨q, rfl⟩ | ⟨rfl, -⟩
      · exact Or.inr (Or.inl rfl)
      · exact Or.inr (Or.inr ⟨q, rfl⟩)
      · cases hcode

/-- **Requests are all or nothing**, however they interleave.  The store is what the committed
transactions make of the initial one in the order of their commits, and what each request has
in that list, one transaction at most, goes with its answer. -/
theorem requests_are_all_or_nothing (app : App) {s₀ s : System} (h₀ : s₀.threads = [])
    {ls : List (Label Request)} (h : runFrom (controlPlane app) s₀ ls = some s) :
    s.db = replay s₀.db (journal (controlPlane app) s₀ ls) ∧
      ∀ (i : Nat) (th : Pending), s.threads[i]? = some th → AllOrNothing th.req th.prog
        (((journal (controlPlane app) s₀ ls).filter (·.1 = i)).map (·.2)) := by
  refine ⟨db_of_journal h, fun i th hi => ?_⟩
  have hpast := past_of_journal h i
  simp only [Sys.pastOf, hi, h₀, List.getElem?_nil, Option.elim_some, Option.elim_none,
    List.nil_append] at hpast
  rw [← hpast]
  exact allOrNothing_of_run h₀ (Reach.of_runFrom h) hi

def wrongPassword : LoginRequest where
  email := "host@example.org".toList
  password := "wrong".toList
  email_accepted := by decide
  password_length := by decide

/-- A login with a wrong password, a submission, and one without a credential, together. -/
def mixedRun : List (Label Request) :=
  .spawn (.login {} wrongPassword) ::
    .spawn (.submitJob sampleCaller sampleSubmission) ::
    .spawn (.submitJob { bearer := none } sampleSubmission) ::
    (runs 0 3 ++ runs 1 10 ++ runs 0 2)

theorem requests_are_all_or_nothing_at_mixedRun :
    ∃ s, runFrom (controlPlane plainApp) (idle queuedDb 0) mixedRun = some s ∧
      (s.threads.map fun th => th.ses.past.length) = [1, 1, 0] ∧
      s.db = replay queuedDb (journal (controlPlane plainApp) (idle queuedDb 0) mixedRun) ∧
      ∀ (i : Nat) (th : Pending), s.threads[i]? = some th → AllOrNothing th.req th.prog
        (((journal (controlPlane plainApp) (idle queuedDb 0) mixedRun).filter (·.1 = i)).map
          (·.2)) := by
  obtain ⟨s, hs, hpasts⟩ := Option.map_eq_some_iff.1 (show
    (runFrom (controlPlane plainApp) (idle queuedDb 0) mixedRun).map
      (fun s => s.threads.map fun th => th.ses.past.length) = some [1, 1, 0] by decide +kernel)
  exact ⟨s, hs, hpasts, requests_are_all_or_nothing plainApp rfl hs⟩

end GpuNetwork
