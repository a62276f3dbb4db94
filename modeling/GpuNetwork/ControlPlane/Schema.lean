import GpuNetwork.ControlPlane.Model
import GpuNetwork.Store.Logic
import GpuNetwork.Text.Like

/-!
# The database schema

The tables of the control plane as an instance of `Schema`: keys, foreign keys with
their `ON DELETE` actions, unique constraints, the ranges of numbers, the texts, the
`WHERE` clauses the repositories issue, and how an `UPDATE` writes the changed columns of
a row.

* `Job.merge`, `User.merge`, … — an `UPDATE` of the columns in which two versions
  of a row differ, applied to a third.
* `Cond` — the clauses.
* `ilike` — the pattern match of PostgreSQL's `ILIKE`.
-/

namespace GpuNetwork

open ReadCommitted

/-! ## Updates -/

/-- One column of an `UPDATE`: written only if the program changed it. -/
def col {α : Type} [DecidableEq α] (old new cur : α) : α := if new = old then cur else new

@[simp] theorem col_self {α : Type} [DecidableEq α] (old cur : α) : col old old cur = cur :=
  if_pos rfl

/-- On the version the program had read, an `UPDATE` leaves what the program wrote. -/
@[simp] theorem col_cur {α : Type} [DecidableEq α] (old new : α) : col old new old = new := by
  unfold col
  split
  · rename_i h; exact h.symm
  · rfl

theorem col_of_ne {α : Type} [DecidableEq α] {old new : α} (h : new ≠ old) (cur : α) :
    col old new cur = new := if_neg h

def User.merge (old new cur : User) : User :=
  { cur with
    status := col old.status new.status cur.status
    canHost := col old.canHost new.canHost cur.canHost
    creditsGpuHours := col old.creditsGpuHours new.creditsGpuHours cur.creditsGpuHours }

def Node.merge (old new cur : Node) : Node :=
  { cur with
    status := col old.status new.status cur.status
    lastSeenAt := col old.lastSeenAt new.lastSeenAt cur.lastSeenAt }

def Job.merge (old new cur : Job) : Job :=
  { cur with
    status := col old.status new.status cur.status
    exitCode := col old.exitCode new.exitCode cur.exitCode
    errorMessage := col old.errorMessage new.errorMessage cur.errorMessage
    assignedNodeId := col old.assignedNodeId new.assignedNodeId cur.assignedNodeId
    preferredNodeId := col old.preferredNodeId new.preferredNodeId cur.preferredNodeId
    startedAt := col old.startedAt new.startedAt cur.startedAt
    completedAt := col old.completedAt new.completedAt cur.completedAt
    cancelRequestedAt := col old.cancelRequestedAt new.cancelRequestedAt cur.cancelRequestedAt }

def ClaimToken.merge (old new cur : ClaimToken) : ClaimToken :=
  { cur with consumedAt := col old.consumedAt new.consumedAt cur.consumedAt }

def ApiKey.merge (old new cur : ApiKey) : ApiKey :=
  { cur with revokedAt := col old.revokedAt new.revokedAt cur.revokedAt }

def AuditLog.merge (old new cur : AuditLog) : AuditLog :=
  { cur with userId := col old.userId new.userId cur.userId }

def NodeMetric.merge (old new cur : NodeMetric) : NodeMetric :=
  { cur with
    utilizationPct := col old.utilizationPct new.utilizationPct cur.utilizationPct
    memoryUsedBytes := col old.memoryUsedBytes new.memoryUsedBytes cur.memoryUsedBytes
    memoryTotalBytes := col old.memoryTotalBytes new.memoryTotalBytes cur.memoryTotalBytes
    temperatureC := col old.temperatureC new.temperatureC cur.temperatureC
    recordedAt := col old.recordedAt new.recordedAt cur.recordedAt }

/-- The columns no `UPDATE` of the program writes are left out. -/
def Row.merge : Row → Row → Row → Row
  | .user old, .user new, .user cur => .user (old.merge new cur)
  | .node old, .node new, .node cur => .node (old.merge new cur)
  | .job old, .job new, .job cur => .job (old.merge new cur)
  | .claimToken old, .claimToken new, .claimToken cur => .claimToken (old.merge new cur)
  | .apiKey old, .apiKey new, .apiKey cur => .apiKey (old.merge new cur)
  | .auditLog old, .auditLog new, .auditLog cur => .auditLog (old.merge new cur)
  | .nodeMetric old, .nodeMetric new, .nodeMetric cur => .nodeMetric (old.merge new cur)
  | _, _, cur => cur

theorem Row.key_merge (old new cur : Row) : (old.merge new cur).key = cur.key := by
  unfold Row.merge
  split <;> rfl

/-! ## Constraints -/

/-- The foreign keys. -/
def Row.refs : Row → List (Nat × Key)
  | .user _ => []
  | .node n => [(0, .user n.userId)]
  | .job j =>
    (0, .user j.userId) :: (j.assignedNodeId.toList.map fun n => (1, .node n)) ++
      j.preferredNodeId.toList.map fun n => (2, .node n)
  | .claimToken c => [(0, .user c.userId)]
  | .apiKey k => [(0, .user k.userId)]
  | .auditLog a => a.userId.toList.map fun u => (0, .user u)
  | .jobLog l => [(0, .job l.jobId)]
  | .nodeMetric m => [(0, .node m.nodeId)]

/-- A reference that `ON DELETE SET NULL` clears. -/
def setNull (id : Uuid) (ref : Option Uuid) : Option Uuid := if ref = some id then none else ref

/-- The `ON DELETE` actions: `SET NULL` for the nodes of a job and the user of an
audit row, `CASCADE` for the rest. -/
def Row.unref : Key → Row → Option Row
  | .node id, .job j =>
    some (.job { j with
      assignedNodeId := setNull id j.assignedNodeId
      preferredNodeId := setNull id j.preferredNodeId })
  | .user id, .auditLog a => some (.auditLog { a with userId := setNull id a.userId })
  | _, _ => none

theorem Row.key_unref (k : Key) (r r' : Row) (h : Row.unref k r = some r') :
    r'.key = r.key := by
  unfold Row.unref at h
  split at h <;> cases h <;> rfl

/-- The unique constraints besides the primary keys. -/
def Row.clash : Row → Row → Bool
  | .user a, .user b => decide (a.email = b.email)
  | .node a, .node b =>
    a.agentTokenPrefix.isSome && decide (a.agentTokenPrefix = b.agentTokenPrefix)
  | .claimToken a, .claimToken b => decide (a.lookupPrefix = b.lookupPrefix)
  | .apiKey a, .apiKey b => decide (a.lookupPrefix = b.lookupPrefix)
  | .jobLog a, .jobLog b => decide (a.jobId = b.jobId) && decide (a.sequence = b.sequence)
  | _, _ => false

theorem Row.clash_comm (a b : Row) : a.clash b = b.clash a := by
  cases a with
  | node m =>
    cases b with
    | node n =>
      simp only [Row.clash]
      by_cases h : m.agentTokenPrefix = n.agentTokenPrefix
      · simp [h]
      · simp [h, Ne.symm h]
    | _ => rfl
  | _ => cases b <;> simp [Row.clash, eq_comm]

/-- The range of `INTEGER`. -/
def fitsInteger (x : Int) : Bool := decide (-2147483648 ≤ x) && decide (x ≤ 2147483647)

/-- The range of `BIGINT`. -/
def fitsBigInteger (x : Int) : Bool :=
  decide (-9223372036854775808 ≤ x) && decide (x ≤ 9223372036854775807)

/-- Every number of the row lies in the range of its column. -/
def Row.fits : Row → Bool
  | .user u => fitsInteger u.creditsGpuHours
  | .node n => fitsInteger n.gpuMemoryGb && fitsInteger n.gpuCount
  | .job j =>
    fitsInteger j.gpuCount && fitsInteger j.maxDurationSeconds && j.exitCode.all fitsInteger
  | .jobLog l => fitsInteger l.sequence
  | .nodeMetric m =>
    fitsInteger m.gpuIndex && fitsInteger m.utilizationPct && fitsBigInteger m.memoryUsedBytes &&
      fitsBigInteger m.memoryTotalBytes && fitsInteger m.temperatureC
  | _ => true

/-- The texts of an audit filter. -/
def AuditFilter.texts (f : AuditFilter) : List Str :=
  f.eventType.toList ++ f.userEmail.toList ++ f.ipAddress.toList

/-- The strings of `event_data` that come from outside the program or from other rows. -/
def EventData.texts (d : EventData) : List Str :=
  d.actorEmail.toList ++ d.claimTokenPrefix.toList ++ d.dockerImage.toList ++ d.email.toList ++
    d.errorMessage.toList ++ d.filters.toList.flatMap AuditFilter.texts ++ d.gpuModel.toList ++
    d.lookupPrefix.toList ++ d.name.toList

/-- The texts of the row, in `JSONB` columns too. -/
def Row.texts : Row → List Str
  | .user u => [u.email, u.passwordHash]
  | .node n =>
    [n.name, n.gpuModel] ++ n.agentTokenHash.toList ++ n.agentTokenPrefix.toList
  | .job j => j.dockerImage :: j.errorMessage.toList ++ j.command
  | .claimToken c => [c.lookupPrefix, c.tokenHash]
  | .apiKey k => [k.name, k.lookupPrefix, k.hash]
  | .auditLog a => a.ipAddress.toList ++ a.userAgent.toList ++ a.eventData.texts
  | .jobLog l => [l.content]
  | .nodeMetric _ => []

/-- How many values the row sends along in an `INSERT` of several rows; the program only
writes log lines and metrics so. -/
def Row.parameters : Row → Nat
  | .jobLog _ => 5
  | .nodeMetric _ => 7
  | _ => 1

/-! ## Queries -/

/-- Two characters up to letter case: they have the same lower case. -/
def sameLetter (lower : Char → Char) (a b : Char) : Bool := decide (lower a = lower b)

/-- `ILIKE`: `LIKE` on the lower case of the pattern and of the text. -/
def ilike (lower : Char → Char) (p s : Str) : Bool :=
  Text.Like.like (fun a b => decide (a = b)) (p.map lower) (s.map lower)

/-- The `WHERE` clauses of the repositories. -/
inductive Cond where
  /-- By primary key. -/
  | byKey (k : Key)
  | userByEmail (email : Str)
  /-- `email ILIKE '%query%'`, with the lower case of the database. -/
  | usersLike (lower : Char → Char) (query : Str)
  | nodeByAgentPrefix (lookupPrefix : Str)
  /-- `get_running_for_node`. -/
  | runningForNode (nodeId : Uuid)
  /-- The candidates of `claim_next_for_node`. -/
  | claimable (nodeId : Uuid) (gpuCapacity : Int)
  | claimTokenByPrefix (lookupPrefix : Str)
  | apiKeyByPrefix (lookupPrefix : Str)
  /-- The audit rows of a filter behind a cursor; the filter on the e-mail address
  is `usersLike`. -/
  | auditPage (filter : AuditFilter) (cursor : Option (Time × Uuid))
  /-- The users of a status and an e-mail address behind a cursor. -/
  | usersPage (lower : Char → Char) (status : Option Str) (query : Str)
      (cursor : Option (Time × Uuid))
  /-- The jobs of a user behind a cursor. -/
  | jobsPage (userId : Uuid) (status : Option Str) (cursor : Option (Time × Uuid))
  /-- `list_after`. -/
  | logsAfter (jobId : Uuid) (afterSequence : Int)
  /-- `get_signup_ip`. -/
  | signupsOf (userId : Uuid)
  | allUsers
  | allNodes
  | allJobs
  /-- The jobs that ended in one of the statuses at a time or later. -/
  | endedSince (statuses : List JobStatus) (cutoff : Time)

/-- A queued job a node with so many GPUs may take. -/
def Job.claimable (nodeId : Uuid) (gpuCapacity : Int) (j : Job) : Bool :=
  decide (j.status = .queued) && decide (j.gpuCount ≤ gpuCapacity) &&
    (decide (j.preferredNodeId = none) || decide (j.preferredNodeId = some nodeId))

/-- A job that runs on a node. -/
def Job.runningOn (nodeId : Uuid) (j : Job) : Bool :=
  decide (j.assignedNodeId = some nodeId) && decide (j.status = .running)

/-- `(created_at, id) < cursor`. -/
def behindCursor (cursor : Option (Time × Uuid)) (createdAt : Time) (id : Uuid) : Bool :=
  match cursor with
  | none => true
  | some (ts, lastId) =>
    decide (createdAt < ts) || (decide (createdAt = ts) && decide (id < lastId))

/-- The order of a page: newest first. -/
def newerFirst (createdAt : Time) (id : Uuid) (createdAt' : Time) (id' : Uuid) : Bool :=
  decide (createdAt' < createdAt) || (decide (createdAt = createdAt') && decide (id' ≤ id))

def AuditLog.passes (f : AuditFilter) (a : AuditLog) : Bool :=
  f.eventType.all (fun e => decide (a.eventType.text = e)) &&
    f.ipAddress.all (fun ip => decide (a.ipAddress = some ip)) &&
    f.createdFrom.all (fun t => decide (t ≤ a.createdAt)) &&
    f.createdTo.all (fun t => decide (a.createdAt ≤ t))

/-- The filters of `UserRepository.list_filtered`. -/
def User.passes (lower : Char → Char) (status : Option Str) (query : Str) (u : User) : Bool :=
  status.all (fun s => decide (u.status.text = s)) &&
    (query.isEmpty || ilike lower ('%' :: query ++ ['%']) u.email)

/-- The filters of `JobRepository.list_for_user`. -/
def Job.passes (userId : Uuid) (status : Option Str) (j : Job) : Bool :=
  decide (j.userId = userId) && status.all fun s => decide (j.status.text = s)

def Cond.holds : Cond → Row → Bool
  | .byKey k, r => decide (r.key = k)
  | .userByEmail email, .user u => decide (u.email = email)
  | .usersLike lower query, .user u => ilike lower ('%' :: query ++ ['%']) u.email
  | .nodeByAgentPrefix p, .node n => decide (n.agentTokenPrefix = some p)
  | .runningForNode id, .job j => j.runningOn id
  | .claimable id capacity, .job j => j.claimable id capacity
  | .claimTokenByPrefix p, .claimToken c => decide (c.lookupPrefix = p)
  | .apiKeyByPrefix p, .apiKey k => decide (k.lookupPrefix = p)
  | .auditPage f cursor, .auditLog a => a.passes f && behindCursor cursor a.createdAt a.id
  | .usersPage lower status query cursor, .user u =>
    u.passes lower status query && behindCursor cursor u.createdAt u.id
  | .jobsPage userId status cursor, .job j =>
    j.passes userId status && behindCursor cursor j.createdAt j.id
  | .logsAfter jobId afterSequence, .jobLog l =>
    decide (l.jobId = jobId) && decide (afterSequence < l.sequence)
  | .signupsOf userId, .auditLog a =>
    decide (a.userId = some userId) && decide (a.eventType = .authSignup)
  | .allUsers, .user _ => true
  | .allNodes, .node _ => true
  | .allJobs, .job _ => true
  | .endedSince statuses cutoff, .job j =>
    statuses.contains j.status && j.completedAt.any fun t => decide (cutoff ≤ t)
  | _, _ => false

/-- `ORDER BY`: oldest first for the jobs to claim and for log lines, newest first for
pages. -/
def Cond.before : Cond → Row → Row → Bool
  | .claimable _ _, .job a, .job b =>
    decide (a.createdAt < b.createdAt) ||
      (decide (a.createdAt = b.createdAt) && decide (a.id ≤ b.id))
  | .auditPage _ _, .auditLog a, .auditLog b => newerFirst a.createdAt a.id b.createdAt b.id
  | .usersPage _ _ _ _, .user a, .user b => newerFirst a.createdAt a.id b.createdAt b.id
  | .jobsPage _ _ _, .job a, .job b => newerFirst a.createdAt a.id b.createdAt b.id
  | .logsAfter _ _, .jobLog a, .jobLog b => decide (a.sequence ≤ b.sequence)
  | .signupsOf _, .auditLog a, .auditLog b => decide (b.createdAt ≤ a.createdAt)
  | _, _, _ => true

instance : Schema Row Key Cond where
  key := Row.key
  merge := Row.merge
  key_merge := Row.key_merge
  refs := Row.refs
  unref := Row.unref
  key_unref := Row.key_unref
  clash := Row.clash
  fits := Row.fits
  texts := Row.texts
  parameters := Row.parameters
  holds := Cond.holds
  before := Cond.before

/-- The database of the control plane. -/
abbrev Database := Db Row

/-! ## The rows of one table -/

@[simp] theorem schema_key (r : Row) : Schema.key r = r.key := rfl

@[simp] theorem schema_merge (old new cur : Row) : Schema.merge old new cur = old.merge new cur :=
  rfl

@[simp] theorem schema_holds (w : Cond) (r : Row) : Schema.holds w r = w.holds r := rfl

theorem Row.eq_job_of_key {r : Row} {id : Uuid} (h : r.key = .job id) :
    ∃ j, r = .job j ∧ j.id = id := by
  cases r <;> simp_all [Row.key]

theorem Row.eq_node_of_key {r : Row} {id : Uuid} (h : r.key = .node id) :
    ∃ n, r = .node n ∧ n.id = id := by
  cases r <;> simp_all [Row.key]

theorem Row.eq_user_of_key {r : Row} {id : Uuid} (h : r.key = .user id) :
    ∃ u, r = .user u ∧ u.id = id := by
  cases r <;> simp_all [Row.key]

theorem Row.eq_auditLog_of_key {r : Row} {id : Uuid} (h : r.key = .auditLog id) :
    ∃ a, r = .auditLog a ∧ a.id = id := by
  cases r <;> simp_all [Row.key]

theorem Row.eq_claimToken_of_key {r : Row} {id : Uuid} (h : r.key = .claimToken id) :
    ∃ c, r = .claimToken c ∧ c.id = id := by
  cases r <;> simp_all [Row.key]

end GpuNetwork

namespace ReadCommitted.Db

open GpuNetwork

/-- The job under an identifier. -/
def job (db : Db Row) (id : Uuid) : Option Job :=
  match db.get (.job id) with
  | some (.job j) => some j
  | _ => none

/-- The node under an identifier. -/
def node (db : Db Row) (id : Uuid) : Option Node :=
  match db.get (.node id) with
  | some (.node n) => some n
  | _ => none

/-- The user under an identifier. -/
def user (db : Db Row) (id : Uuid) : Option User :=
  match db.get (.user id) with
  | some (.user u) => some u
  | _ => none

/-- The audit row under an identifier. -/
def auditLog (db : Db Row) (id : Uuid) : Option AuditLog :=
  match db.get (.auditLog id) with
  | some (.auditLog a) => some a
  | _ => none

/-- The claim token under an identifier. -/
def claimToken (db : Db Row) (id : Uuid) : Option ClaimToken :=
  match db.get (.claimToken id) with
  | some (.claimToken c) => some c
  | _ => none

theorem get_job_iff {db : Db Row} {id : Uuid} {j : Job} :
    db.get (.job id) = some (.job j) ↔ db.job id = some j := by
  unfold Db.job
  cases h : db.get (.job id) with
  | none => simp
  | some r =>
    obtain ⟨j', rfl, -⟩ := Row.eq_job_of_key (Db.key_of_get h)
    simp

theorem get_node_iff {db : Db Row} {id : Uuid} {n : Node} :
    db.get (.node id) = some (.node n) ↔ db.node id = some n := by
  unfold Db.node
  cases h : db.get (.node id) with
  | none => simp
  | some r =>
    obtain ⟨n', rfl, -⟩ := Row.eq_node_of_key (Db.key_of_get h)
    simp

theorem get_auditLog_iff {db : Db Row} {id : Uuid} {a : AuditLog} :
    db.get (.auditLog id) = some (.auditLog a) ↔ db.auditLog id = some a := by
  unfold Db.auditLog
  cases h : db.get (.auditLog id) with
  | none => simp
  | some r =>
    obtain ⟨a', rfl, -⟩ := Row.eq_auditLog_of_key (Db.key_of_get h)
    simp

theorem get_claimToken_iff {db : Db Row} {id : Uuid} {c : ClaimToken} :
    db.get (.claimToken id) = some (.claimToken c) ↔ db.claimToken id = some c := by
  unfold Db.claimToken
  cases h : db.get (.claimToken id) with
  | none => simp
  | some r =>
    obtain ⟨c', rfl, -⟩ := Row.eq_claimToken_of_key (Db.key_of_get h)
    simp

theorem get_user_iff {db : Db Row} {id : Uuid} {u : User} :
    db.get (.user id) = some (.user u) ↔ db.user id = some u := by
  unfold Db.user
  cases h : db.get (.user id) with
  | none => simp
  | some r =>
    obtain ⟨u', rfl, -⟩ := Row.eq_user_of_key (Db.key_of_get h)
    simp

theorem id_of_job {db : Db Row} {id : Uuid} {j : Job} (h : db.job id = some j) : j.id = id := by
  have hk := Db.key_of_get (get_job_iff.2 h)
  simpa [Row.key] using hk

theorem id_of_node {db : Db Row} {id : Uuid} {n : Node} (h : db.node id = some n) :
    n.id = id := by
  have hk := Db.key_of_get (get_node_iff.2 h)
  simpa [Row.key] using hk

theorem id_of_auditLog {db : Db Row} {id : Uuid} {a : AuditLog} (h : db.auditLog id = some a) :
    a.id = id := by
  have hk := Db.key_of_get (get_auditLog_iff.2 h)
  simpa [Row.key] using hk

theorem id_of_user {db : Db Row} {id : Uuid} {u : User} (h : db.user id = some u) :
    u.id = id := by
  have hk := Db.key_of_get (get_user_iff.2 h)
  simpa [Row.key] using hk

end ReadCommitted.Db
