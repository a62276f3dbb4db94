import GpuNetwork.Commits.OneAtATime
import GpuNetwork.Jobs.Cancellation

/-!
# The audit log as the record of the tables

While requests are answered one at a time, a fold over the audit rows in the order of
their commits gives back the jobs, nodes and accounts.

* `Ledger` — what the log is meant to record; `Db.ledger` reads it off the tables.
* `Ledger.replay` — what one audit row does to it.
* `Recorded` — what a commit does to the tables is what its audit row says.
-/

namespace GpuNetwork

open ReadCommitted ReadCommitted.Spec

/-! ## The record -/

/-- A job as the log records it. -/
structure JobEntry where
  status : JobStatus
  cancelRequested : Bool
  assignedNodeId : Option Uuid
  deriving DecidableEq

/-- An account as the log records it. -/
structure UserEntry where
  status : UserStatus
  canHost : Bool
  creditsGpuHours : Int
  deriving DecidableEq

/-- What the audit log records: the jobs, for each node whether it is draining, and the
accounts. -/
@[ext] structure Ledger where
  jobs : Uuid → Option JobEntry
  nodes : Uuid → Option Bool
  users : Uuid → Option UserEntry

def Job.entry (j : Job) : JobEntry := ⟨j.status, j.cancelRequestedAt.isSome, j.assignedNodeId⟩

def Node.entry (n : Node) : Bool := decide (n.status = .draining)

def User.entry (u : User) : UserEntry := ⟨u.status, u.canHost, u.creditsGpuHours⟩

namespace Ledger

/-- Nothing has been recorded. -/
def empty : Ledger := ⟨fun _ => none, fun _ => none, fun _ => none⟩

variable (L : Ledger)

/-- Change one job. -/
def onJob (id : Option Uuid) (f : Option JobEntry → Option JobEntry) : Ledger :=
  { L with jobs := fun x => if id = some x then f (L.jobs x) else L.jobs x }

/-- Change one node. -/
def onNode (id : Option Uuid) (f : Option Bool → Option Bool) : Ledger :=
  { L with nodes := fun x => if id = some x then f (L.nodes x) else L.nodes x }

/-- Change one account. -/
def onUser (id : Option Uuid) (f : Option UserEntry → Option UserEntry) : Ledger :=
  { L with users := fun x => if id = some x then f (L.users x) else L.users x }

/-- A job takes on a status. -/
def setStatus (id : Option Uuid) (status : JobStatus) : Ledger :=
  L.onJob id (Option.map fun e => { e with status })

/-- A bill is taken from an account. -/
def bill (id : Option Uuid) (hours : Option Int) : Ledger :=
  L.onUser id (Option.map fun e =>
    { e with creditsGpuHours := max 0 (e.creditsGpuHours - hours.getD 0) })

/-- A job in the queue is cancelled at once, one that runs is asked to stop. -/
def cancel (id : Option Uuid) (phase : Option JobStatus) : Ledger :=
  if phase = some .queued then L.setStatus id .cancelled
  else L.onJob id (Option.map fun e => { e with cancelRequested := true })

/-- What an audit row records. -/
def replay (L : Ledger) (a : AuditLog) : Ledger :=
  match a.eventType with
  | .authSignup => L.onUser a.userId fun _ => some ⟨.pending, false, 0⟩
  | .userApproved => L.onUser a.userId (Option.map fun _ =>
      ⟨.active, a.eventData.canHost.getD false, a.eventData.creditsGpuHours.getD 0⟩)
  | .userSuspended => L.onUser a.userId (Option.map fun e => { e with status := .suspended })
  | .nodeRegistered => L.onNode a.eventData.nodeId fun _ => some false
  | .nodeDrained => L.onNode a.eventData.nodeId (Option.map fun _ => true)
  | .adminNodeForceDrained => L.onNode a.eventData.nodeId (Option.map fun _ => true)
  | .nodeUndrained => L.onNode a.eventData.nodeId (Option.map fun _ => false)
  | .nodeRemoved =>
    { L.onNode a.eventData.nodeId fun _ => none with
      jobs := fun x => (L.jobs x).map fun e =>
        if e.assignedNodeId = a.eventData.nodeId then { e with assignedNodeId := none } else e }
  | .jobSubmitted => L.onJob a.eventData.jobId fun _ => some ⟨.queued, false, none⟩
  | .jobAssigned => L.onJob a.eventData.jobId (Option.map fun e =>
      { e with status := .running, assignedNodeId := a.eventData.nodeId })
  | .jobCompleted =>
    (L.setStatus a.eventData.jobId .completed).bill a.userId a.eventData.billedGpuHours
  | .jobFailed => (L.setStatus a.eventData.jobId .failed).bill a.userId a.eventData.billedGpuHours
  -- the agent's report of a cancelled job has no phase
  | .jobCancelled =>
    if a.eventData.phase = none then
      (L.setStatus a.eventData.jobId .cancelled).bill a.userId a.eventData.billedGpuHours
    else L.cancel a.eventData.jobId a.eventData.phase
  | .adminJobForceKilled => L.cancel a.eventData.jobId a.eventData.phase
  | _ => L

end Ledger

end GpuNetwork

namespace ReadCommitted.Db

open GpuNetwork

/-- The audit row in a row. -/
def auditRow : Row → Option AuditLog
  | .auditLog a => some a
  | _ => none

/-- The audit rows in the order of their commits. -/
def events (db : Db Row) : List AuditLog := db.rows.filterMap auditRow

/-- What the tables hold of all that the log records. -/
def ledger (db : Db Row) : Ledger where
  jobs id := (db.job id).map Job.entry
  nodes id := (db.node id).map Node.entry
  users id := (db.user id).map User.entry

end ReadCommitted.Db

namespace GpuNetwork

open ReadCommitted ReadCommitted.Spec

/-- What has happened between `db` and `db'` is what the audit rows `new` say. -/
structure Recorded (db db' : Database) (new : List AuditLog) : Prop where
  events : db'.events = db.events ++ new
  ledger : db'.ledger = new.foldl Ledger.replay db.ledger

theorem Recorded.refl (db : Database) : Recorded db db [] := ⟨(List.append_nil _).symm, rfl⟩

theorem Recorded.trans {a b c : Database} {xs ys : List AuditLog} (hab : Recorded a b xs)
    (hbc : Recorded b c ys) : Recorded a c (xs ++ ys) :=
  ⟨by rw [hbc.events, hab.events, List.append_assoc],
    by rw [hbc.ledger, hab.ledger, List.foldl_append]⟩

/-! ## One transaction -/

variable {app : App} {db : Database} {req : Request} {tx : Transaction}

/-- The write is none of an audit row. -/
def OffLog (w : Write Row Key) : Prop := ∀ id, w.target ≠ .auditLog id

theorem auditRow_of_offLog {w : Write Row Key} (h : OffLog w) (r : Row)
    (hk : Schema.key r = w.target) : Db.auditRow r = none := by
  cases r with
  | auditLog a => exact absurd hk.symm (h a.id)
  | _ => rfl

/-- The audit log after a transaction that does not log. -/
theorem events_unlogged (hw : ∀ w ∈ tx.writes, OffLog w) : (tx.view db).events = db.events :=
  filterMap_applyAll _ (fun w hm => auditRow_of_offLog (hw w hm)) db

/-- The audit log after a transaction that logs one row. -/
theorem events_logged {p q : List (Write Row Key)} {a : AuditLog}
    (hw : tx.writes = p ++ .insert (.auditLog a) :: q) (hpre : ∀ w ∈ p, OffLog w)
    (hpost : ∀ w ∈ q, OffLog w) (hfresh : db.get (.auditLog a.id) = none) :
    (tx.view db).events = db.events ++ [a] := by
  have hnone : (applyAll p db).get (.auditLog a.id) = none := by
    rw [get_applyAll_of_not_target fun w hm => hpre w hm a.id]
    exact hfresh
  show (applyAll tx.writes db).rows.filterMap Db.auditRow = _
  rw [hw, applyAll_append, applyAll_cons,
    filterMap_applyAll _ (fun w hm => auditRow_of_offLog (hpost w hm)), Write.apply_insert,
    filterMap_insert _ hnone, filterMap_applyAll _ (fun w hm => auditRow_of_offLog (hpre w hm))]
  rfl

/-! ## The tables of the ledger -/

/-- A table as the log records it. -/
structure Table (E : Type) where
  key : Uuid → Key
  key_inj : ∀ a b, key a = key b → a = b
  entry : Row → Option E

def jobTable : Table JobEntry :=
  ⟨.job, fun _ _ h => Key.job.inj h, fun r => match r with | .job j => some j.entry | _ => none⟩

def nodeTable : Table Bool :=
  ⟨.node, fun _ _ h => Key.node.inj h, fun r => match r with | .node n => some n.entry | _ => none⟩

def userTable : Table UserEntry :=
  ⟨.user, fun _ _ h => Key.user.inj h, fun r => match r with | .user u => some u.entry | _ => none⟩

/-- The entries of a table. -/
def Table.of {E : Type} (T : Table E) (db : Database) (id : Uuid) : Option E :=
  (db.get (T.key id)).bind T.entry

theorem ledger_jobs (db : Database) : db.ledger.jobs = jobTable.of db := by
  funext id
  show (db.job id).map Job.entry = (db.get (.job id)).bind jobTable.entry
  rw [Db.get_job]
  cases db.job id <;> rfl

theorem ledger_nodes (db : Database) : db.ledger.nodes = nodeTable.of db := by
  funext id
  show (db.node id).map Node.entry = (db.get (.node id)).bind nodeTable.entry
  rw [Db.get_node]
  cases db.node id <;> rfl

theorem ledger_users (db : Database) : db.ledger.users = userTable.of db := by
  funext id
  show (db.user id).map User.entry = (db.get (.user id)).bind userTable.entry
  rw [Db.get_user]
  cases db.user id <;> rfl

section

variable {E : Type} {T : Table E}

/-- The write is none of a row of the table. -/
def Table.Off (T : Table E) (w : Write Row Key) : Prop := ∀ id, w.target ≠ T.key id

theorem Table.of_unwritten (hw : ∀ w ∈ tx.writes, T.Off w) : T.of (tx.view db) = T.of db := by
  funext id
  rw [Table.of, Tx.view_get (fun w hm => hw w hm id) db]
  rfl

/-- The table after a transaction that writes one row of it. -/
theorem Table.of_written {p q : List (Write Row Key)} {w : Write Row Key} {id₀ : Uuid}
    {e : E} (hw : tx.writes = p ++ w :: q) (hpre : ∀ v ∈ p, T.Off v)
    (hpost : ∀ v ∈ q, T.Off v) (ht : w.target = T.key id₀)
    (hon : (w.on (T.key id₀) (db.get (T.key id₀))).bind T.entry = some e) :
    T.of (tx.view db) = fun id => if some id₀ = some id then some e else T.of db id := by
  funext id
  have hview : (tx.view db).get (T.key id) = w.on (T.key id) (db.get (T.key id)) := by
    rw [Tx.view, get_applyAll, hw, List.foldl_append, List.foldl_cons,
      foldl_on_of_ne (fun v hm => hpre v hm id), foldl_on_of_ne (fun v hm => hpost v hm id)]
  rw [Table.of, hview]
  by_cases hid : id₀ = id
  · subst hid
    rw [if_pos rfl, hon]
  · have hne : w.target ≠ T.key id := fun h => hid (T.key_inj _ _ (ht.symm.trans h))
    rw [if_neg (fun h => hid (Option.some.inj h)), Write.on_of_ne hne]
    rfl

/-- The table after a transaction that flushes one row of it, which is still as it was
read. -/
theorem Table.of_flushed {p q : List (Write Row Key)} {old new : Row} {id₀ : Uuid}
    {e : E} (hw : tx.writes = p ++ (flushed old new ++ q)) (hpre : ∀ v ∈ p, T.Off v)
    (hpost : ∀ v ∈ q, T.Off v) (ht : old.key = T.key id₀)
    (hcur : db.get (T.key id₀) = some old) (hmerge : old.merge new old = new)
    (he : T.entry new = some e) :
    T.of (tx.view db) = fun id => if some id₀ = some id then some e else T.of db id := by
  unfold flushed at hw
  split at hw
  · rename_i hsame
    rw [Table.of_unwritten fun w hm => by
      rw [hw, List.nil_append] at hm
      exact (List.mem_append.1 hm).elim (hpre w) (hpost w)]
    funext id
    by_cases hid : id₀ = id
    · subst hid
      rw [if_pos rfl, Table.of, hcur, Option.bind_some, ← hsame, he]
    · rw [if_neg (fun h => hid (Option.some.inj h))]
  · have ht' : (Write.update old new : Write Row Key).target = T.key id₀ := ht
    refine Table.of_written hw hpre hpost ht' ?_
    rw [hcur, Write.on_update ht']
    show (some (old.merge new old)).bind T.entry = some e
    rw [hmerge, Option.bind_some, he]

end

/-- Changing one entry, when it is known what it becomes. -/
theorem update_at {E : Type} {g : Uuid → Option E} {f : Option E → Option E} {id₀ : Uuid} {e : E}
    (h : f (g id₀) = some e) :
    (fun x => if some id₀ = some x then f (g x) else g x) =
      fun x => if some id₀ = some x then some e else g x := by
  funext x
  by_cases hx : some id₀ = some x
  · cases hx
    rw [if_pos rfl, if_pos rfl, h]
  · rw [if_neg hx, if_neg hx]

/-! ## Commits -/

/-- A transaction that logs one row is recorded if each table becomes what the row says. -/
theorem recorded_of_logged {p q : List (Write Row Key)} {a : AuditLog}
    (hw : tx.writes = p ++ .insert (.auditLog a) :: q) (hpre : ∀ w ∈ p, OffLog w)
    (hpost : ∀ w ∈ q, OffLog w) (hfresh : db.get (.auditLog a.id) = none)
    (hjobs : jobTable.of (tx.view db) = (db.ledger.replay a).jobs)
    (hnodes : nodeTable.of (tx.view db) = (db.ledger.replay a).nodes)
    (husers : userTable.of (tx.view db) = (db.ledger.replay a).users) :
    ∃ new, Recorded db (tx.view db) new := by
  refine ⟨[a], events_logged hw hpre hpost hfresh, ?_⟩
  show (tx.view db).ledger = db.ledger.replay a
  ext1
  · rw [ledger_jobs, hjobs]
  · rw [ledger_nodes, hnodes]
  · rw [ledger_users, husers]

/-- A transaction that logs nothing is recorded if it changes nothing that is. -/
theorem recorded_of_unlogged (hw : ∀ w ∈ tx.writes, OffLog w)
    (hjobs : jobTable.of (tx.view db) = jobTable.of db)
    (hnodes : nodeTable.of (tx.view db) = nodeTable.of db)
    (husers : userTable.of (tx.view db) = userTable.of db) :
    ∃ new, Recorded db (tx.view db) new := by
  refine ⟨[], by rw [events_unlogged hw, List.append_nil], ?_⟩
  show (tx.view db).ledger = db.ledger
  ext1
  · rw [ledger_jobs, ledger_jobs, hjobs]
  · rw [ledger_nodes, ledger_nodes, hnodes]
  · rw [ledger_users, ledger_users, husers]

/-- A transaction whose audit row says nothing new of tables it does not touch. -/
theorem recorded_of_noted {p : List (Write Row Key)} {a : AuditLog}
    (hw : tx.writes = p ++ [.insert (.auditLog a)]) (hpre : ∀ w ∈ p, OffLog w)
    (htables : ∀ w ∈ tx.writes, ∀ id, w.target ≠ .job id ∧ w.target ≠ .node id ∧
      w.target ≠ .user id)
    (hfresh : db.get (.auditLog a.id) = none) (hreplay : db.ledger.replay a = db.ledger) :
    ∃ new, Recorded db (tx.view db) new := by
  refine recorded_of_logged hw hpre (by simp) hfresh ?_ ?_ ?_
  · rw [hreplay, ledger_jobs]
    exact Table.of_unwritten fun w hm id => (htables w hm id).1
  · rw [hreplay, ledger_nodes]
    exact Table.of_unwritten fun w hm id => (htables w hm id).2.1
  · rw [hreplay, ledger_users]
    exact Table.of_unwritten fun w hm id => (htables w hm id).2.2

/-- The transaction keeps to tables the log does not record, and notes it at most in
passing. -/
theorem recorded_of_aside (h : (serially app).Committing db req tx) (ha : Aside app req tx) :
    ∃ new, Recorded db (tx.view db) new := by
  have htarget := ha.target
  -- the event of such a transaction changes no entry
  have hlogged : ∀ {p : List (Write Row Key)} {a : AuditLog},
      tx.writes = p ++ [.insert (.auditLog a)] → (∀ w ∈ p, OffLog w) →
      tx.Fresh (.auditLog a.id) → db.ledger.replay a = db.ledger →
      ∃ new, Recorded db (tx.view db) new :=
    fun hw hpre hfresh hreplay => recorded_of_noted hw hpre htarget (h.get_of_fresh hfresh) hreplay
  cases ha with
  | login hw hfresh he =>
    refine hlogged (p := []) hw (by simp) hfresh ?_
    rcases he with he | he <;> simp [Ledger.replay, he]
  | listAuditEvents hw hfresh he =>
    exact hlogged (p := []) hw (by simp) hfresh (by simp [Ledger.replay, he])
  | generateKey hw hfresh he =>
    rename_i k a
    exact hlogged (p := [.insert (.apiKey k)]) hw (by simp [OffLog, Write.target, Row.key])
      hfresh (by simp [Ledger.replay, he])
  | revokeKey hw hfresh he =>
    rename_i k k' a
    exact hlogged (p := [.update (.apiKey k) (.apiKey k')]) hw
      (by simp [OffLog, Write.target, Row.key]) hfresh (by simp [Ledger.replay, he])
  | createClaimToken hw hc hfresh he =>
    rename_i c a
    exact hlogged (p := [.insert (.claimToken c)]) hw
      (by simp [OffLog, Write.target, Row.key]) hfresh (by simp [Ledger.replay, he])
  | pushLogs hn hread hassign hw hlogs hseq =>
    refine recorded_of_unlogged (fun w hm id => ?_)
      (Table.of_unwritten fun w hm id => (htarget w hm id).1)
      (Table.of_unwritten fun w hm id => (htarget w hm id).2.1)
      (Table.of_unwritten fun w hm id => (htarget w hm id).2.2)
    rw [hw] at hm
    obtain ⟨l, -, rfl⟩ := List.mem_map.1 hm
    simp [Write.target, Row.key]

/-- An approval or a suspension. -/
theorem recorded_of_sets (h : (serially app).Committing db req tx) {id : Uuid} {event : Event}
    {f : User → User} {data : EventData} {u : User} {a : AuditLog}
    (hs : Sets req id event f data) (hid : u.id = id) (hu : AsUser tx u)
    (hw : tx.writes = flushed (.user u) (.user (f u)) ++ [.insert (.auditLog a)])
    (hlogs : Logs tx a event (some id) data) : ∃ new, Recorded db (tx.view db) new := by
  obtain ⟨cond, hread⟩ := hu
  have hcur := user_of_read h.toSince hread
  have hoff : ∀ w ∈ flushed (.user u) (.user (f u)), OffLog w := by
    intro w hm id
    rw [target_of_mem_flushed hm]
    simp [Row.key]
  have husers := Table.of_flushed (T := userTable) (p := [])
    (e := (f u).entry) hw (by simp) (by simp [Table.Off, userTable, Write.target, Row.key]) rfl
    (Db.get_user_iff.2 hcur) (by cases hs <;> simp [Row.merge, User.merge]) rfl
  refine recorded_of_logged hw hoff (by simp) (h.get_of_fresh hlogs.fresh) ?_ ?_ ?_
  · rw [Table.of_unwritten fun w hm x => (target_of_mem_sets hw w hm x).1, ← ledger_jobs]
    cases hs <;> rw [Ledger.replay, hlogs.event] <;> rfl
  · rw [Table.of_unwritten fun w hm x => (target_of_mem_sets hw w hm x).2, ← ledger_nodes]
    cases hs <;> rw [Ledger.replay, hlogs.event] <;> rfl
  · rw [husers, ← ledger_users]
    have hthere : db.ledger.users u.id = some u.entry := by
      show (db.user u.id).map User.entry = _
      rw [hcur]
      rfl
    subst hid
    cases hs with
    | approveUser =>
      rw [Ledger.replay, hlogs.event, hlogs.userId, hlogs.data]
      exact (update_at (by rw [hthere]; rfl)).symm
    | suspendUser =>
      rw [Ledger.replay, hlogs.event, hlogs.userId]
      exact (update_at (by rw [hthere]; rfl)).symm

/-- The record of a write of a job, when its audit row says the same of the job and
nothing else. -/
theorem recorded_of_job (h : (serially app).Committing db req tx) {w : Write Row Key} {j : Job}
    {a : AuditLog} {event : Event} {userId : Option Uuid} {data : EventData}
    (hw : tx.writes = [w, .insert (.auditLog a)]) (ht : w.target = .job j.id)
    (hon : w.on (.job j.id) (db.get (.job j.id)) = some (.job j))
    (hlogs : Logs tx a event userId data) {f : Option JobEntry → Option JobEntry}
    (hf : f (db.ledger.jobs j.id) = some j.entry)
    (hreplay : db.ledger.replay a = db.ledger.onJob (some j.id) f) :
    ∃ new, Recorded db (tx.view db) new := by
  have htargets : ∀ v ∈ tx.writes, v.target = .job j.id ∨ v.target = .auditLog a.id := by
    intro v hv
    rw [hw, List.mem_cons, List.mem_singleton] at hv
    rcases hv with rfl | rfl
    · exact Or.inl ht
    · exact Or.inr rfl
  have hoff : ∀ v ∈ [w], OffLog v := by
    intro v hv id
    rw [List.mem_singleton.1 hv, ht]
    simp
  refine recorded_of_logged (p := [w]) hw hoff (by simp) (h.get_of_fresh hlogs.fresh) ?_ ?_ ?_
  · rw [hreplay, Table.of_written (T := jobTable) (p := []) (e := j.entry) hw (by simp)
      (by simp [Table.Off, jobTable, Write.target, Row.key]) ht (by rw [jobTable, hon]; rfl),
      ← ledger_jobs]
    exact (update_at hf).symm
  · rw [hreplay, Table.of_unwritten, ← ledger_nodes]
    · rfl
    · intro v hv id
      rcases htargets v hv with hv | hv <;> rw [hv] <;> simp [nodeTable]
  · rw [hreplay, Table.of_unwritten, ← ledger_users]
    · rfl
    · intro v hv id
      rcases htargets v hv with hv | hv <;> rw [hv] <;> simp [userTable]

/-- The record of an update of a job that is still as it was read. -/
theorem recorded_of_job_update (h : (serially app).Committing db req tx) {old new : Job}
    {a : AuditLog} {event : Event} {userId : Option Uuid} {data : EventData}
    (hw : tx.writes = [.update (.job old) (.job new), .insert (.auditLog a)])
    (hid : old.id = new.id) (hcur : db.job old.id = some old) (hmerge : old.merge new old = new)
    (hlogs : Logs tx a event userId data) {f : JobEntry → JobEntry} (hf : f old.entry = new.entry)
    (hreplay : db.ledger.replay a = db.ledger.onJob (some old.id) (Option.map f)) :
    ∃ new, Recorded db (tx.view db) new := by
  have hentry : db.ledger.jobs old.id = some old.entry := by
    show (db.job old.id).map Job.entry = _
    rw [hcur]
    rfl
  have hon : (Write.update (Row.job old) (Row.job new) : Write Row Key).on (.job old.id)
      (db.get (.job old.id)) = some (.job new) := by
    rw [Db.get_job_iff.2 hcur]
    refine (Write.on_update_of_some rfl).trans ?_
    show some (Row.job (old.merge new old)) = _
    rw [hmerge]
  rw [hid] at hon hentry hreplay
  refine recorded_of_job h hw (congrArg Key.job hid) hon hlogs ?_ hreplay
  rw [hentry, Option.map_some, hf]

/-- The record of a write of a node. -/
theorem recorded_of_node (h : (serially app).Committing db req tx) {w : Write Row Key}
    {n : Node} {a : AuditLog} {event : Event} {userId : Option Uuid} {data : EventData}
    {q : List (Write Row Key)} (hw : tx.writes = w :: (q ++ [.insert (.auditLog a)]))
    (ht : w.target = .node n.id)
    (hpost : ∀ v ∈ q, ∃ id, v.target = .claimToken id)
    (hon : w.on (.node n.id) (db.get (.node n.id)) = some (.node n))
    (hlogs : Logs tx a event userId data) {f : Option Bool → Option Bool}
    (hf : f (db.ledger.nodes n.id) = some n.entry)
    (hreplay : db.ledger.replay a = db.ledger.onNode (some n.id) f) :
    ∃ new, Recorded db (tx.view db) new := by
  have htargets : ∀ v ∈ tx.writes, v.target = .node n.id ∨
      (∃ id, v.target = .claimToken id) ∨ v.target = .auditLog a.id := by
    intro v hv
    rw [hw, List.mem_cons, List.mem_append, List.mem_singleton] at hv
    rcases hv with rfl | hv | rfl
    · exact Or.inl ht
    · exact Or.inr (Or.inl (hpost v hv))
    · exact Or.inr (Or.inr rfl)
  have hoff : ∀ v ∈ w :: q, OffLog v := by
    intro v hv id
    rcases List.mem_cons.1 hv with rfl | hv
    · rw [ht]; simp
    · obtain ⟨x, hx⟩ := hpost v hv
      rw [hx]; simp
  refine recorded_of_logged (p := w :: q) hw hoff (by simp) (h.get_of_fresh hlogs.fresh)
    ?_ ?_ ?_
  · rw [hreplay, Table.of_unwritten, ← ledger_jobs]
    · rfl
    · intro v hv id
      rcases htargets v hv with hv | ⟨x, hv⟩ | hv <;> rw [hv] <;> simp [jobTable]
  · rw [hreplay, Table.of_written (T := nodeTable) (p := []) (e := n.entry) hw (by simp) ?_ ht
      (by rw [nodeTable, hon]; rfl), ← ledger_nodes]
    · exact (update_at hf).symm
    · intro v hv id
      rcases List.mem_append.1 hv with hv | hv
      · obtain ⟨x, hx⟩ := hpost v hv
        rw [hx]; simp [nodeTable]
      · rw [List.mem_singleton.1 hv]; simp [nodeTable, Write.target, Row.key]
  · rw [hreplay, Table.of_unwritten, ← ledger_users]
    · rfl
    · intro v hv id
      rcases htargets v hv with hv | ⟨x, hv⟩ | hv <;> rw [hv] <;> simp [userTable]

/-- The record of a change of status of a node that is still as it was read. -/
theorem recorded_of_node_status (h : (serially app).Committing db req tx) {n : Node}
    {status : NodeStatus} {a : AuditLog} {event : Event} {userId : Option Uuid} {data : EventData}
    (hw : tx.writes = [.update (.node n) (.node { n with status }), .insert (.auditLog a)])
    (hcur : db.node n.id = some n) (hlogs : Logs tx a event userId data)
    (hreplay : db.ledger.replay a = db.ledger.onNode (some n.id)
      (Option.map fun _ => decide (status = .draining))) :
    ∃ new, Recorded db (tx.view db) new := by
  have hon : (Write.update (Row.node n) (Row.node { n with status }) : Write Row Key).on
      (.node n.id) (db.get (.node n.id)) = some (.node { n with status }) := by
    rw [Db.get_node_iff.2 hcur]
    refine (Write.on_update_of_some rfl).trans ?_
    simp [Row.merge, Node.merge]
  refine recorded_of_node (n := { n with status }) h (q := []) hw rfl (by simp) hon hlogs ?_
    hreplay
  show Option.map _ ((db.node n.id).map Node.entry) = _
  rw [hcur]
  rfl

/-- What the end of a job records. -/
theorem replay_terminal {L : Ledger} {a : AuditLog} {j : Job} {exitCode : Int}
    (he : a.eventType = terminalEvent (completionTarget j exitCode))
    (hphase : a.eventData.phase = none) :
    L.replay a = (L.setStatus a.eventData.jobId (completionTarget j exitCode)).bill a.userId
      a.eventData.billedGpuHours := by
  rcases completionTarget_cases j exitCode with ht | ht | ht
  · rw [ht] at he ⊢
    rw [Ledger.replay, he]
    simp [terminalEvent, hphase]
  · rw [ht] at he ⊢
    rw [Ledger.replay, he]
    rfl
  · rw [ht] at he ⊢
    rw [Ledger.replay, he]
    rfl

/-- The agent's report on a job. -/
theorem recorded_of_completeJob (h : (serially app).Committing db req tx) {p : CompleteJobRequest}
    {n : Node} {j : Job} {now : Time} {owner : Option User} {hours : Int} {a : AuditLog}
    {id : Uuid} (hread : tx.Read (.byKey (.job id)) (.job j))
    (howner : Owner tx hours j.userId owner)
    (hw : tx.writes = .update (.job j) (.job (j.terminated (completionTarget j p.exitCode)
        (some p.exitCode) p.errorMessage now)) ::
          (billWrites hours owner ++ [.insert (.auditLog a)]))
    (hlogs : Logs tx a (terminalEvent (completionTarget j p.exitCode)) (some j.userId)
      { jobId := some j.id, nodeId := some n.id, exitCode := some p.exitCode,
        billedGpuHours := some hours, errorMessage := p.errorMessage }) :
    ∃ new, Recorded db (tx.view db) new := by
  have hcur := job_of_read h.toSince hread
  have hbill : ∀ v ∈ billWrites hours owner, ∃ uid, v.target = .user uid :=
    fun v hv => target_of_mem_billWrites hv
  have hreplay := replay_terminal (L := db.ledger) hlogs.event (by rw [hlogs.data])
  rw [hlogs.data, hlogs.userId] at hreplay
  have hupdate : (Write.update (Row.job j) (Row.job (j.terminated (completionTarget j p.exitCode)
      (some p.exitCode) p.errorMessage now)) : Write Row Key).target = .job j.id := rfl
  refine recorded_of_logged (p := .update _ _ :: billWrites hours owner) hw ?_ (by simp)
    (h.get_of_fresh hlogs.fresh) ?_ ?_ ?_
  · intro v hv k
    rcases List.mem_cons.1 hv with rfl | hv
    · rw [hupdate]; simp
    · obtain ⟨uid, hu⟩ := hbill v hv
      rw [hu]; simp
  · have hon : (Write.update (Row.job j) (Row.job (j.terminated (completionTarget j p.exitCode)
        (some p.exitCode) p.errorMessage now)) : Write Row Key).on (.job j.id)
        (db.get (.job j.id)) = some (.job (j.terminated (completionTarget j p.exitCode)
          (some p.exitCode) p.errorMessage now)) := by
      rw [Write.on_update hupdate, Db.get_job_iff.2 hcur]
      simp [Row.merge]
    rw [hreplay, Table.of_written (T := jobTable) (p := [])
      (e := { j.entry with status := completionTarget j p.exitCode }) hw (by simp) ?_ hupdate
      (by rw [jobTable, hon]; rfl), ← ledger_jobs]
    · refine (update_at ?_).symm
      show ((db.job j.id).map Job.entry).map _ = _
      rw [hcur]
      rfl
    · intro v hv k
      rcases List.mem_append.1 hv with hv | hv
      · obtain ⟨uid, hu⟩ := hbill v hv
        rw [hu]; simp [jobTable]
      · rw [List.mem_singleton.1 hv]; simp [jobTable, Write.target, Row.key]
  · rw [hreplay, Table.of_unwritten, ← ledger_nodes]
    · rfl
    · intro v hv k
      rw [hw, List.mem_cons, List.mem_append, List.mem_singleton] at hv
      rcases hv with rfl | hv | rfl
      · rw [hupdate]; simp [nodeTable]
      · obtain ⟨uid, hu⟩ := hbill v hv
        rw [hu]; simp [nodeTable]
      · simp [nodeTable, Write.target, Row.key]
  · rw [hreplay]
    cases owner with
    | none =>
      have hnone := user_eq_none_of_missed h.toSince howner
      rw [Table.of_unwritten, ← ledger_users]
      · funext x
        show db.ledger.users x = if some j.userId = some x then
          (db.ledger.users x).map _ else db.ledger.users x
        by_cases hx : some j.userId = some x
        · cases hx
          rw [if_pos rfl, show db.ledger.users j.userId = none by
            show (db.user j.userId).map User.entry = none
            rw [hnone]
            rfl]
          rfl
        · rw [if_neg hx]
      · intro v hv k
        rw [hw, billWrites, List.nil_append, List.mem_cons, List.mem_singleton] at hv
        rcases hv with rfl | rfl
        · rw [hupdate]; simp [userTable]
        · simp [userTable, Write.target, Row.key]
    | some u =>
      have huser := user_of_read h.toSince howner.1
      have hid := id_of_read_user howner.1
      rw [Table.of_flushed (T := userTable) (p := [.update _ _]) (e := (u.billed hours).entry)
        hw (by simp [Table.Off, userTable, hupdate])
        (by simp [Table.Off, userTable, Write.target, Row.key]) rfl (Db.get_user_iff.2 huser)
        (by simp [Row.merge, User.merge, User.billed]) rfl, ← ledger_users, ← hid]
      refine (update_at ?_).symm
      show ((db.user u.id).map User.entry).map _ = _
      rw [huser]
      rfl

/-- Every job after the deletion of a node. -/
theorem job_view_deleted {n : Node} {a : AuditLog} {view : Database}
    (hv : view = db.insert (.auditLog a))
    (hw : tx.writes = .insert (.auditLog a) ::
      ((referring view (.node n.id)).map (unrefWrite (.node n.id)) ++ [.delete (.node n.id)]))
    (id : Uuid) : (tx.view db).job id = (db.job id).map (Job.cleared n.id) := by
  have hrow : view.get (.job id) = db.get (.job id) := by
    rw [hv, Db.get_insert_of_ne (by simp [Row.key])]
  rcases get_view_delete db (.job id) hw (by simp) (by simp) with ⟨r, hr, hk, hget⟩ | ⟨hall, hget⟩
  · obtain ⟨j, rfl, rfl⟩ := Row.eq_job_of_key hk
    have hnow : db.get (.job j.id) = some (.job j) := by
      rw [← hrow]
      exact Db.get_of_mem (List.mem_filter.1 hr).1
    rw [Db.get_job_iff.1 hnow]
    refine Db.job_of_get ?_
    rw [hget, hnow]
    simp [unrefWrite, Schema.unref, Row.unref, Write.on, Row.key, Row.merge, Job.merge,
      Job.cleared]
  · rw [Db.job_congr hget]
    cases hj : db.job id with
    | none => rfl
    | some j =>
      have hid := Db.id_of_job hj
      subst hid
      -- the job does not refer to the node, so there is nothing to clear
      have hmem : Row.job j ∈ view.rows := Db.mem_of_get (hrow.trans (Db.get_job_iff.2 hj))
      have hrefs : Key.node n.id ∉ (Row.refs (.job j)).map Prod.snd := fun hm =>
        hall (.job j) (List.mem_filter.2 ⟨hmem, decide_eq_true hm⟩) rfl
      have ha : j.assignedNodeId ≠ some n.id := fun he => hrefs (by simp [Row.refs, he])
      have hp : j.preferredNodeId ≠ some n.id := fun he => hrefs (by simp [Row.refs, he])
      rw [Option.map_some, Job.cleared, setNull, setNull, if_neg ha, if_neg hp]

/-- Nothing but jobs and metrics refers to a node. -/
theorem target_of_deletion {view : Database} {id : Uuid} {w : Write Row Key}
    (hw : w ∈ (referring view (.node id)).map (unrefWrite (.node id)) ++ [.delete (.node id)]) :
    (∀ k, w.target ≠ .user k) ∧ OffLog w := by
  rcases List.mem_append.1 hw with hm | hm
  · obtain ⟨r, hr, rfl⟩ := List.mem_map.1 hm
    have hmem := of_decide_eq_true (List.mem_filter.1 hr).2
    unfold OffLog
    rw [target_unrefWrite]
    cases r with
    | user x => simp [Schema.refs, Row.refs] at hmem
    | auditLog x =>
      simp only [Schema.refs, Row.refs, List.map_map, List.mem_map, Function.comp] at hmem
      obtain ⟨x, -, hx⟩ := hmem
      cases hx
    | _ => simp [Row.key]
  · rw [List.mem_singleton.1 hm]
    simp [OffLog, Write.target]

/-- The deletion of a node. -/
theorem recorded_of_deleteNode (h : (serially app).Committing db req tx) {n : Node} {u : User}
    {a : AuditLog} {e : Entry Row Key Cond} {view : Database} (he : e ∈ tx.log)
    (hv : view = e.db.insert (.auditLog a))
    (hw : tx.writes = .insert (.auditLog a) ::
      ((referring view (.node n.id)).map (unrefWrite (.node n.id)) ++ [.delete (.node n.id)]))
    (hlogs : Logs tx a .nodeRemoved (some n.userId)
      { nodeId := some n.id, actorUserId := some u.id, actorEmail := some u.email }) :
    ∃ new, Recorded db (tx.view db) new := by
  rw [h.toSince.db_eq_of_alone (fun _ _ _ heq => heq) he] at hv
  have hpost : ∀ w ∈ (referring view (.node n.id)).map (unrefWrite (.node n.id)) ++
      [.delete (.node n.id)], (∀ k, w.target ≠ .user k) ∧ OffLog w := fun w => target_of_deletion
  have hreplay : db.ledger.replay a = { db.ledger.onNode (some n.id) fun _ => none with
      jobs := fun x => (db.ledger.jobs x).map fun e =>
        if e.assignedNodeId = some n.id then { e with assignedNodeId := none } else e } := by
    rw [Ledger.replay, hlogs.event, hlogs.data]
  refine recorded_of_logged (p := []) hw (by simp) (fun w hm => (hpost w hm).2)
    (h.get_of_fresh hlogs.fresh) ?_ ?_ ?_
  · rw [hreplay, ← ledger_jobs]
    funext id
    show ((tx.view db).job id).map Job.entry = ((db.job id).map Job.entry).map _
    rw [job_view_deleted hv hw id]
    cases db.job id with
    | none => rfl
    | some j =>
      simp only [Option.map_some, Option.some.injEq, Job.entry, Job.cleared, setNull]
      by_cases ha : j.assignedNodeId = some n.id
      · rw [if_pos ha, if_pos ha]
      · rw [if_neg ha, if_neg ha]
  · rw [hreplay, ← ledger_nodes]
    funext id
    show ((tx.view db).node id).map Node.entry = if some n.id = some id then none else _
    rw [node_view_delete hw id]
    by_cases hid : n.id = id
    · rw [if_pos hid, if_pos (congrArg some hid)]
      rfl
    · rw [if_neg hid, if_neg (fun hs => hid (Option.some.inj hs))]
      rfl
  · rw [hreplay, Table.of_unwritten, ← ledger_users]
    · rfl
    · intro w hm id
      rw [hw] at hm
      rcases List.mem_cons.1 hm with rfl | hm
      · simp [userTable, Write.target, Row.key]
      · exact (hpost w hm).1 id

/-- A cancellation, as its audit row records it. -/
theorem replay_cancel {L : Ledger} {a : AuditLog} {id : Uuid} {event : Event}
    (hc : Cancels req id event) (he : a.eventType = event) {phase : JobStatus}
    (hphase : a.eventData.phase = some phase) :
    L.replay a = L.cancel a.eventData.jobId (some phase) := by
  cases hc with
  | cancelJob =>
    rw [Ledger.replay, he]
    simp [hphase]
  | forceKillJob =>
    rw [Ledger.replay, he]
    simp [hphase]

/-- A signup. -/
theorem recorded_of_signup (h : (serially app).Committing db req tx) {email : Str} {u : User}
    {a : AuditLog} (hw : tx.writes = [.insert (.user u), .insert (.auditLog a)])
    (hu : u = { id := u.id, email, passwordHash := u.passwordHash, createdAt := u.createdAt })
    (hfresh : tx.Fresh (.user u.id)) (hlogs : Logs tx a .authSignup (some u.id) {}) :
    ∃ new, Recorded db (tx.view db) new := by
  have hreplay : db.ledger.replay a =
      db.ledger.onUser (some u.id) fun _ => some ⟨.pending, false, 0⟩ := by
    rw [Ledger.replay, hlogs.event, hlogs.userId]
  have hon : (Write.insert (Row.user u) : Write Row Key).on (.user u.id)
      (db.get (.user u.id)) = some (.user u) := by
    rw [h.get_of_fresh hfresh]
    exact Write.on_insert_of_none rfl
  refine recorded_of_logged (p := [.insert (.user u)]) hw
    (by simp [OffLog, Write.target, Row.key]) (by simp) (h.get_of_fresh hlogs.fresh) ?_ ?_ ?_
  · rw [Table.of_unwritten (by rw [hw]; simp [Table.Off, jobTable, Write.target, Row.key]),
      ← ledger_jobs, hreplay]
    rfl
  · rw [Table.of_unwritten (by rw [hw]; simp [Table.Off, nodeTable, Write.target, Row.key]),
      ← ledger_nodes, hreplay]
    rfl
  · rw [Table.of_written (T := userTable) (p := []) (e := u.entry) hw (by simp)
      (by simp [Table.Off, userTable, Write.target, Row.key]) rfl (by rw [userTable, hon]; rfl),
      ← ledger_users, hreplay]
    refine (update_at (f := fun _ => some (⟨.pending, false, 0⟩ : UserEntry)) ?_).symm
    rw [hu]
    rfl

/-- What notes when a node was last seen is not recorded, and need not be. -/
theorem recorded_of_seen (h : (serially app).Committing db req tx) {bearer : Option Str}
    (hreq : (∃ id, req = .heartbeat bearer id) ∨ ∃ id samples, req = .pushMetrics bearer id samples)
    (hoff : ∀ w ∈ tx.writes, (∃ id, w.target = .node id) ∨ ∃ id g, w.target = .nodeMetric id g) :
    ∃ new, Recorded db (tx.view db) new := by
  refine recorded_of_unlogged (fun w hm id => ?_) (Table.of_unwritten fun w hm id => ?_) ?_
    (Table.of_unwritten fun w hm id => ?_)
  · rcases hoff w hm with ⟨x, hx⟩ | ⟨x, g, hx⟩ <;> rw [hx] <;> simp
  · rcases hoff w hm with ⟨x, hx⟩ | ⟨x, g, hx⟩ <;> rw [hx] <;> simp [jobTable]
  · rw [← ledger_nodes, ← ledger_nodes]
    funext id
    show ((tx.view db).node id).map Node.entry = (db.node id).map Node.entry
    have hstep := node_step h id
    generalize db.node id = o at hstep ⊢
    generalize (tx.view db).node id = o' at hstep ⊢
    have hno : ∀ {r : Request}, req = r → (∀ id, r ≠ .heartbeat bearer id) →
        (∀ id samples, r ≠ .pushMetrics bearer id samples) → False := by
      intro r hr hheart hmetrics
      rcases hreq with ⟨id, rfl⟩ | ⟨id, samples, rfl⟩
      · exact hheart id hr.symm
      · exact hmetrics id samples hr.symm
    cases hstep with
    | same => rfl
    | seen => rfl
    | registered hr => exact (hno hr (by simp) (by simp)).elim
    | drained hd => cases hd <;> exact (hno rfl (by simp) (by simp)).elim
    | undrained hr => exact (hno hr (by simp) (by simp)).elim
    | deleted hr hw => exact (hno hr (by simp) (by simp)).elim
  · rcases hoff w hm with ⟨x, hx⟩ | ⟨x, g, hx⟩ <;> rw [hx] <;> simp [userTable]

/-- **Every commit is recorded.** -/
theorem recorded_of_committing (h : (serially app).Committing db req tx) :
    ∃ new, Recorded db (tx.view db) new := by
  cases h.shape with
  | aside ha => exact recorded_of_aside h ha
  | signup hw hu hfresh hlogs => exact recorded_of_signup h hw hu hfresh hlogs
  | sets hs hid hu hf hw hflush hlogs => exact recorded_of_sets h hs hid hu hw hlogs
  | registerNode hread hcheck hconsumed huser hgpu hstatus hfresh hfound hw hlogs =>
    rename_i client p c n now a
    refine recorded_of_node (w := .insert (.node n)) h (q := [.update (.claimToken c) _]) hw rfl
      (by simp [Write.target, Row.key]) ?_ hlogs (f := fun _ => some false) ?_ ?_
    · rw [h.get_of_fresh hfresh]
      exact Write.on_insert_of_none rfl
    · simp [Node.entry, hstatus]
    · rw [Ledger.replay, hlogs.event, hlogs.data]
  | heartbeat hn hid hw =>
    refine recorded_of_seen h (Or.inl ⟨_, rfl⟩) fun w hm => ?_
    rw [hw] at hm
    exact Or.inl ⟨_, target_of_mem_flushed hm⟩
  | pushMetrics hn hid hups hw =>
    refine recorded_of_seen h (Or.inr ⟨_, _, rfl⟩) fun w hm => ?_
    rw [hw] at hm
    rcases List.mem_append.1 hm with hm | hm
    · obtain ⟨g, hg⟩ := hups w hm
      exact Or.inr ⟨_, g, hg⟩
    · exact Or.inl ⟨_, target_of_mem_flushed hm⟩
  | drain hd hread hstatus hfound hw hlogs =>
    refine recorded_of_node_status h hw (node_of_read h.toSince hread) hlogs ?_
    cases hd <;> rw [Ledger.replay, hlogs.event, hlogs.data] <;> rfl
  | drained hd hread hstatus hw =>
    refine recorded_of_unlogged (by rw [hw]; simp) ?_ ?_ ?_ <;>
      exact Table.of_unwritten (by rw [hw]; simp)
  | undrain hread hstatus hfound hw hlogs =>
    refine recorded_of_node_status h hw (node_of_read h.toSince hread) hlogs ?_
    rw [Ledger.replay, hlogs.event, hlogs.data]
    rfl
  | deleteNode hread hmiss he hv hlocks hw hlogs => exact recorded_of_deleteNode h he hv hw hlogs
  | deletedNode hread he hstmt hnone hw hlogs =>
    -- the node is there when it is deleted
    have hcur := node_of_read h.toSince hread
    rw [h.toSince.db_eq_of_alone (fun _ _ _ heq => heq) he, hcur] at hnone
    cases hnone
  | submitJob hu hact hcost hj hfresh hw hlogs =>
    rename_i caller p u j a
    refine recorded_of_job (w := .insert (.job j)) h hw rfl ?_ hlogs
      (f := fun _ => some ⟨.queued, false, none⟩) ?_ ?_
    · rw [h.get_of_fresh hfresh]
      exact Write.on_insert_of_none rfl
    · rw [hj]
      rfl
    · rw [Ledger.replay, hlogs.event, hlogs.data]
  | claimJob hn hdrain hmiss hlock hfound hw hlogs =>
    rename_i bearer n j now a
    obtain ⟨hget, -⟩ := h.get_of_locked hlock
    refine recorded_of_job_update h hw rfl (Db.get_job_iff.1 hget)
      (by simp [Job.merge, Job.claimedBy]) hlogs
      (f := fun e => { e with status := .running, assignedNodeId := some n.id }) rfl ?_
    rw [Ledger.replay, hlogs.event, hlogs.data]
  | completeJob hn hread hassign hallowed hhours howner hfound hw hlogs =>
    exact recorded_of_completeJob h hread howner hw hlogs
  | cancelQueued hc hread hstatus hfound hw hlogs =>
    refine recorded_of_job_update h hw rfl (job_of_read h.toSince hread) (merge_terminated ..)
      hlogs (f := fun e => { e with status := .cancelled }) rfl ?_
    rw [replay_cancel hc hlogs.event (by rw [hlogs.data]), hlogs.data]
    rfl
  | requestCancel hc hread hstatus hreq hfound hw hlogs =>
    refine recorded_of_job_update h hw rfl (job_of_read h.toSince hread)
      (merge_cancelRequested ..) hlogs (f := fun e => { e with cancelRequested := true }) rfl ?_
    rw [replay_cancel hc hlogs.event (by rw [hlogs.data]), hlogs.data]
    rfl
  | cancelAgain hc hread hstatus hreq hw hlogs =>
    rename_i jobId event j u owner target a
    have hcur := job_of_read h.toSince hread
    have hentry : db.ledger.jobs j.id = some j.entry := by
      show (db.job j.id).map Job.entry = _
      rw [hcur]
      rfl
    -- the job has been asked to stop before
    have hreplay : db.ledger.replay a = db.ledger := by
      rw [replay_cancel hc hlogs.event (by rw [hlogs.data]), hlogs.data]
      ext1
      · refine (update_at (f := Option.map _) (e := j.entry) ?_).trans ?_
        · rw [hentry]
          simp [Job.entry, hreq]
        · funext x
          by_cases hx : some j.id = some x
          · cases hx
            rw [if_pos rfl, hentry]
          · rw [if_neg hx]
      · rfl
      · rfl
    exact recorded_of_noted (p := []) hw (by simp)
      (by rw [hw]; simp [Write.target, Row.key]) (h.get_of_fresh hlogs.fresh) hreplay

/-! ## Runs -/

theorem recorded_of_reach {clock : Time} {s : System}
    (h : Reach (controlPlane app) OneAtATime (idle db clock) s) : ∃ new, Recorded db s.db new :=
  serial_invariant (P := serially app) (platform_valid app _ _) trivial (fun _ _ _ ht => ht)
    (fun d => ∃ new, Recorded db d new)
    (fun _ _ _ _ _ _ _ hcom hI => by
      obtain ⟨xs, hxs⟩ := hI
      obtain ⟨ys, hys⟩ := recorded_of_committing hcom
      exact ⟨xs ++ ys, hxs.trans hys⟩)
    rfl ⟨[], Recorded.refl db⟩ h

/-- **The audit log is a complete record.**  In every run of one request at a time, from
any store, replaying the audit rows that were added gives what has become of the tables;
so from the empty store the whole log gives the tables, and runs with the same log end in
the same tables. -/
theorem audit_log_is_complete (app : App) {db : Database} {clock : Time} {s : System}
    (h : Reach (controlPlane app) OneAtATime (idle db clock) s) :
    (db = Db.empty → s.db.ledger = s.db.events.foldl Ledger.replay Ledger.empty) ∧
    (∃ new, s.db.events = db.events ++ new ∧
      s.db.ledger = new.foldl Ledger.replay db.ledger) ∧
    ∀ clock' s', Reach (controlPlane app) OneAtATime (idle db clock') s' →
      s'.db.events = s.db.events → s'.db.ledger = s.db.ledger := by
  obtain ⟨new, hnew⟩ := recorded_of_reach h
  refine ⟨fun hempty => ?_, ⟨new, hnew.events, hnew.ledger⟩, fun clock' s' h' hsame => ?_⟩
  · subst hempty
    have hlog : s.db.events = new := hnew.events
    rw [hlog, hnew.ledger]
    rfl
  · obtain ⟨new', hnew'⟩ := recorded_of_reach h'
    rw [hnew'.events, hnew.events] at hsame
    rw [hnew'.ledger, hnew.ledger, List.append_cancel_left hsame]

theorem audit_log_is_complete_at_cancelledRun :
    ∃ s, Reach (controlPlane plainApp) OneAtATime (idle queuedDb 0) s ∧
      s.db.events.map AuditLog.eventType = [.jobAssigned, .jobCancelled, .jobCancelled] ∧
      s.db.ledger = s.db.events.foldl Ledger.replay queuedDb.ledger := by
  obtain ⟨s, hs, hevents⟩ := Option.map_eq_some_iff.1 (show
    (runWhile (controlPlane plainApp) Sys.idles (idle queuedDb 0) cancelledRun).map
      (fun s => s.db.events.map AuditLog.eventType) =
        some [.jobAssigned, .jobCancelled, .jobCancelled] by decide +kernel)
  have hr := Reach.of_idles hs
  obtain ⟨-, ⟨new, hnew, hledger⟩, -⟩ := audit_log_is_complete plainApp hr
  have hnone : queuedDb.events = [] := by decide +kernel
  rw [hnone, List.nil_append] at hnew
  rw [← hnew] at hledger
  exact ⟨s, hr, hevents, hledger⟩

end GpuNetwork
