import GpuNetwork.Commits.Accounts

/-!
# What a commit does to one row

The effect of a committing transaction on a single job or node, read off its shape.

* `get_view_of_first`, `get_view_delete` — a row after a commit.
* `JobStep`, `job_step` — the ways a job changes.
* `NodeStep`, `node_step` — the ways a node changes.
* `UserStep`, `user_step` — the ways an account changes.
-/

namespace ReadCommitted.Db

open GpuNetwork

/-! ## Lookups by table -/

variable {a b : Db Row} {id : Uuid}

theorem job_congr (h : a.get (.job id) = b.get (.job id)) : a.job id = b.job id := by
  rw [job, job, h]

theorem node_congr (h : a.get (.node id) = b.get (.node id)) : a.node id = b.node id := by
  rw [node, node, h]

theorem user_congr (h : a.get (.user id) = b.get (.user id)) : a.user id = b.user id := by
  rw [user, user, h]

theorem get_job (db : Db Row) (id : Uuid) : db.get (.job id) = (db.job id).map .job := by
  cases h : db.job id with
  | some j => rw [get_job_iff.2 h]; rfl
  | none =>
    cases hg : db.get (.job id) with
    | none => rfl
    | some r =>
      obtain ⟨j, rfl, -⟩ := Row.eq_job_of_key (key_of_get hg)
      rw [get_job_iff, h] at hg
      cases hg

theorem get_node (db : Db Row) (id : Uuid) : db.get (.node id) = (db.node id).map .node := by
  cases h : db.node id with
  | some n => rw [get_node_iff.2 h]; rfl
  | none =>
    cases hg : db.get (.node id) with
    | none => rfl
    | some r =>
      obtain ⟨n, rfl, -⟩ := Row.eq_node_of_key (key_of_get hg)
      rw [get_node_iff, h] at hg
      cases hg

theorem get_user (db : Db Row) (id : Uuid) : db.get (.user id) = (db.user id).map .user := by
  cases h : db.user id with
  | some u => rw [get_user_iff.2 h]; rfl
  | none =>
    cases hg : db.get (.user id) with
    | none => rfl
    | some r =>
      obtain ⟨u, rfl, -⟩ := Row.eq_user_of_key (key_of_get hg)
      rw [get_user_iff, h] at hg
      cases hg

theorem get_claimToken (db : Db Row) (id : Uuid) :
    db.get (.claimToken id) = (db.claimToken id).map .claimToken := by
  cases h : db.claimToken id with
  | some c => rw [get_claimToken_iff.2 h]; rfl
  | none =>
    cases hg : db.get (.claimToken id) with
    | none => rfl
    | some r =>
      obtain ⟨c, rfl, -⟩ := Row.eq_claimToken_of_key (key_of_get hg)
      rw [get_claimToken_iff, h] at hg
      cases hg

theorem job_of_get {db : Db Row} {o : Option Job} (h : db.get (.job id) = o.map .job) :
    db.job id = o := by
  rw [job, h]
  cases o <;> rfl

theorem node_of_get {db : Db Row} {o : Option Node} (h : db.get (.node id) = o.map .node) :
    db.node id = o := by
  rw [node, h]
  cases o <;> rfl

theorem user_of_get {db : Db Row} {o : Option User} (h : db.get (.user id) = o.map .user) :
    db.user id = o := by
  rw [user, h]
  cases o <;> rfl

theorem claimToken_of_get {db : Db Row} {o : Option ClaimToken}
    (h : db.get (.claimToken id) = o.map .claimToken) : db.claimToken id = o := by
  rw [claimToken, h]
  cases o <;> rfl

end ReadCommitted.Db

namespace GpuNetwork

open ReadCommitted

/-! ## Jobs -/

/-- A job after one of the nodes it refers to has gone. -/
def Job.cleared (nodeId : Uuid) (job : Job) : Job :=
  { job with
    assignedNodeId := setNull nodeId job.assignedNodeId
    preferredNodeId := setNull nodeId job.preferredNodeId }

/-- What a commit does to the job `id`. -/
inductive JobStep (app : App) (req : Request) (tx : Transaction) (id : Uuid) :
    Option Job → Option Job → Prop
  | same {o : Option Job} : JobStep app req tx id o o
  | submitted {caller : Caller} {p : SubmitJobRequest} {u : User} {j : Job} :
      req = .submitJob caller p → AsUser tx u → j.id = id →
      j = { id := j.id, userId := u.id, dockerImage := p.dockerImage, command := p.command,
            gpuCount := p.gpuCount, maxDurationSeconds := p.maxDurationSeconds,
            preferredNodeId := p.preferredNodeId, createdAt := j.createdAt } →
      JobStep app req tx id none (some j)
  | claimed {bearer : Option Str} {n : Node} {j : Job} {now : Time} :
      req = .claimJob bearer → AsNode app tx bearer n → n.status ≠ .draining →
      tx.Missed (.runningForNode n.id) → j.claimable n.id n.gpuCount = true →
      (j.assignedNodeId ≠ some n.id → tx.Found (.node n.id)) →
      .update (.job j) (.job (j.claimedBy n.id now)) ∈ tx.writes →
      JobStep app req tx id (some j) (some (j.claimedBy n.id now))
  | completed {bearer : Option Str} {p : CompleteJobRequest} {n : Node} {old cur : Job}
      {now : Time} :
      req = .completeJob bearer id p → AsNode app tx bearer n →
      tx.Read (.byKey (.job id)) (.job old) → old.assignedNodeId = some n.id →
      (old.status, completionTarget old p.exitCode) ∈ allowedTransitions →
      .update (.job old) (.job (old.terminated (completionTarget old p.exitCode)
        (some p.exitCode) p.errorMessage now)) ∈ tx.writes →
      JobStep app req tx id (some cur) (some (old.merge (old.terminated
        (completionTarget old p.exitCode) (some p.exitCode) p.errorMessage now) cur))
  | cancelled {event : Event} {old cur : Job} {now : Time} :
      Cancels req id event → tx.Read (.byKey (.job id)) (.job old) → old.status = .queued →
      .update (.job old) (.job (old.terminated .cancelled none (some cancelledByUser) now)) ∈
        tx.writes →
      JobStep app req tx id (some cur) (some (old.merge (old.terminated .cancelled none
        (some cancelledByUser) now) cur))
  | cancelRequested {event : Event} {old cur : Job} {now : Time} :
      Cancels req id event → tx.Read (.byKey (.job id)) (.job old) → old.status = .running →
      old.cancelRequestedAt = none →
      .update (.job old) (.job (old.cancelRequested now)) ∈ tx.writes →
      JobStep app req tx id (some cur) (some (old.merge (old.cancelRequested now) cur))
  | nodeDeleted {caller : Caller} {n : Node} {j : Job} :
      req = .deleteNode caller n.id → tx.Missed (.runningForNode n.id) →
      .delete (.node n.id) ∈ tx.writes → JobStep app req tx id (some j) (some (j.cleared n.id))

/-- What a commit does to the node `id`. -/
inductive NodeStep (req : Request) (tx : Transaction) (id : Uuid) :
    Option Node → Option Node → Prop
  | same {o : Option Node} : NodeStep req tx id o o
  | registered {client : Client} {p : RegisterNodeRequest} {n : Node} :
      req = .registerNode client p → n.id = id → n.status = .online → n.gpuCount = p.gpuCount →
      .insert (.node n) ∈ tx.writes → NodeStep req tx id none (some n)
  | seen {cur : Node} {lastSeenAt : Option Time} :
      NodeStep req tx id (some cur) (some { cur with lastSeenAt })
  | drained {event : Event} {n cur : Node} :
      Drains req id event → tx.Read (.byKey (.node id)) (.node n) → n.status ≠ .draining →
      NodeStep req tx id (some cur) (some { cur with status := .draining })
  | undrained {caller : Caller} {n cur : Node} :
      req = .undrainNode caller id → tx.Read (.byKey (.node id)) (.node n) →
      n.status = .draining → NodeStep req tx id (some cur) (some { cur with status := .online })
  | deleted {caller : Caller} {o : Option Node} :
      req = .deleteNode caller id → .delete (.node id) ∈ tx.writes → NodeStep req tx id o none

/-- What a commit does to the account `id`. -/
inductive UserStep (req : Request) (tx : Transaction) (id : Uuid) :
    Option User → Option User → Prop
  | same {o : Option User} : UserStep req tx id o o
  | signedUp {client : Client} {p : SignupRequest} {u : User} :
      req = .signup client p → u.id = id →
      u = { id := u.id, email := p.email, passwordHash := u.passwordHash,
            createdAt := u.createdAt } → UserStep req tx id none (some u)
  | set {event : Event} {f : User → User} {data : EventData} {u cur : User} :
      Sets req id event f data → AsUser tx u → u.id = id →
      UserStep req tx id (some cur) (some (u.merge (f u) cur))
  | billed {bearer : Option Str} {jobId : Uuid} {p : CompleteJobRequest} {j : Job} {u cur : User}
      {hours : Int} :
      req = .completeJob bearer jobId p → tx.Read (.byKey (.job jobId)) (.job j) →
      (j.status, completionTarget j p.exitCode) ∈ allowedTransitions → j.userId = id →
      AsUser tx u → u.id = id →
      UserStep req tx id (some cur) (some (u.merge (u.billed hours) cur))

variable {app : App} {rely : Rely} {refusals : Prop} {db : Database} {req : Request}
  {tx : Transaction}

/-- The row a transaction has read under a key has that key. -/
theorem id_of_read_job {id : Uuid} {j : Job} (h : tx.Read (.byKey (.job id)) (.job j)) :
    j.id = id := by
  obtain ⟨e, -, -, -, hh⟩ := h
  simpa [Cond.holds, Row.key] using hh

theorem id_of_read_node {id : Uuid} {n : Node} (h : tx.Read (.byKey (.node id)) (.node n)) :
    n.id = id := by
  obtain ⟨e, -, -, -, hh⟩ := h
  simpa [Cond.holds, Row.key] using hh

theorem id_of_read_user {id : Uuid} {u : User} (h : tx.Read (.byKey (.user id)) (.user u)) :
    u.id = id := by
  obtain ⟨e, -, -, -, hh⟩ := h
  simpa [Cond.holds, Row.key] using hh

/-- What a claim commits. -/
theorem shape_of_claimJob {bearer : Option Str} (h : Shape app (.claimJob bearer) tx) :
    ∃ n j now a, AsNode app tx bearer n ∧ n.status ≠ .draining ∧
      tx.Missed (.runningForNode n.id) ∧ tx.Locked (.claimable n.id n.gpuCount) (.job j) ∧
      (j.assignedNodeId ≠ some n.id → tx.Found (.node n.id)) ∧
      tx.writes = [.update (.job j) (.job (j.claimedBy n.id now)), .insert (.auditLog a)] := by
  cases h with
  | aside ha => cases ha
  | sets hs => cases hs
  | drain hd => cases hd
  | drained hd => cases hd
  | cancelQueued hc => cases hc
  | requestCancel hc => cases hc
  | cancelAgain hc => cases hc
  | claimJob hn hdrain hmiss hlock hfound hw hlogs =>
    exact ⟨_, _, _, _, hn, hdrain, hmiss, hlock, hfound, hw⟩

/-- What a submission commits. -/
theorem shape_of_submitJob {caller : Caller} {p : SubmitJobRequest}
    (h : Shape app (.submitJob caller p) tx) :
    ∃ u j a, AsUser tx u ∧ u.status = .active ∧
      p.gpuCount * p.maxDurationSeconds ≤ u.creditsGpuHours * 3600 ∧
      j = { id := j.id, userId := u.id, dockerImage := p.dockerImage, command := p.command,
            gpuCount := p.gpuCount, maxDurationSeconds := p.maxDurationSeconds,
            preferredNodeId := p.preferredNodeId, createdAt := j.createdAt } ∧
      tx.Fresh (.job j.id) ∧ tx.writes = [.insert (.job j), .insert (.auditLog a)] := by
  cases h with
  | aside ha => cases ha
  | sets hs => cases hs
  | drain hd => cases hd
  | drained hd => cases hd
  | cancelQueued hc => cases hc
  | requestCancel hc => cases hc
  | cancelAgain hc => cases hc
  | submitJob hu hact hcost hj hfresh hw hlogs =>
    exact ⟨_, _, _, hu, hact, hcost, hj, hfresh, hw⟩

/-- What the report of an agent commits. -/
theorem shape_of_completeJob {bearer : Option Str} {id : Uuid} {p : CompleteJobRequest}
    (h : Shape app (.completeJob bearer id p) tx) :
    ∃ n j completedAt now owner hours a, AsNode app tx bearer n ∧
      tx.Read (.byKey (.job id)) (.job j) ∧ j.assignedNodeId = some n.id ∧
      (j.status, completionTarget j p.exitCode) ∈ allowedTransitions ∧
      hours = billGpuHours (j.startedAt.getD completedAt) completedAt j.gpuCount ∧
      Owner tx hours j.userId owner ∧ tx.Found (.job j.id) ∧
      tx.writes = .update (.job j) (.job (j.terminated (completionTarget j p.exitCode)
          (some p.exitCode) p.errorMessage now)) ::
        (billWrites hours owner ++ [.insert (.auditLog a)]) ∧
      Logs tx a (terminalEvent (completionTarget j p.exitCode)) (some j.userId)
        { jobId := some j.id, nodeId := some n.id, exitCode := some p.exitCode,
          billedGpuHours := some hours, errorMessage := p.errorMessage } := by
  cases h with
  | aside ha => cases ha
  | sets hs => cases hs
  | drain hd => cases hd
  | drained hd => cases hd
  | cancelQueued hc => cases hc
  | requestCancel hc => cases hc
  | cancelAgain hc => cases hc
  | completeJob hn hread hassign hallowed hhours howner hfound hw hlogs =>
    exact ⟨_, _, _, _, _, _, _, hn, hread, hassign, hallowed, hhours, howner, hfound, hw, hlogs⟩

/-- What a removal commits: the node goes, or it had gone by then. -/
theorem shape_of_deleteNode {caller : Caller} {id : Uuid}
    (h : Shape app (.deleteNode caller id) tx) :
    ∃ (a : AuditLog) (e : Entry Row Key Cond), e ∈ tx.log ∧
      ((∃ view, tx.Missed (.runningForNode id) ∧ view = e.db.insert (.auditLog a) ∧
        e.locks = deleteLocks view (.node id) ∧ tx.writes = .insert (.auditLog a) ::
          ((referring view (.node id)).map (unrefWrite (.node id)) ++ [.delete (.node id)])) ∨
      (e.db.node id = none ∧ tx.writes = [.insert (.auditLog a)])) := by
  cases h with
  | aside ha => cases ha
  | sets hs => cases hs
  | drain hd => cases hd
  | drained hd => cases hd
  | cancelQueued hc => cases hc
  | requestCancel hc => cases hc
  | cancelAgain hc => cases hc
  | deleteNode hread hmiss he hv hlocks hw hlogs =>
    have hid := id_of_read_node hread
    subst hid
    exact ⟨_, _, he, Or.inl ⟨_, hmiss, hv, hlocks, hw⟩⟩
  | deletedNode hread he hstmt hnone hw hlogs =>
    have hid := id_of_read_node hread
    subst hid
    exact ⟨_, _, he, Or.inr ⟨hnone, hw⟩⟩

theorem job_of_found (h : (platform app rely refusals).Since req tx db) {id : Uuid}
    (hf : tx.Found (.job id)) : ∃ j, db.job id = some j := by
  obtain ⟨r, hr⟩ := h.exists_of_found hf
  obtain ⟨j, rfl, -⟩ := Row.eq_job_of_key (Db.key_of_get hr)
  exact ⟨j, Db.get_job_iff.1 hr⟩

theorem node_of_found (h : (platform app rely refusals).Since req tx db) {id : Uuid}
    (hf : tx.Found (.node id)) : ∃ n, db.node id = some n := by
  obtain ⟨r, hr⟩ := h.exists_of_found hf
  obtain ⟨n, rfl, -⟩ := Row.eq_node_of_key (Db.key_of_get hr)
  exact ⟨n, Db.get_node_iff.1 hr⟩

/-- The tables a transaction that stands aside leaves alone. -/
theorem Aside.target (h : Aside app req tx) : ∀ w ∈ tx.writes, ∀ id,
    w.target ≠ .job id ∧ w.target ≠ .node id ∧ w.target ≠ .user id := by
  cases h with
  | login hw _ _ => rw [hw]; simp [Write.target, Row.key]
  | listAuditEvents hw _ _ => rw [hw]; simp [Write.target, Row.key]
  | generateKey hw _ _ => rw [hw]; simp [Write.target, Row.key]
  | revokeKey hw _ _ => rw [hw]; simp [Write.target, Row.key]
  | createClaimToken hw _ _ _ => rw [hw]; simp [Write.target, Row.key]
  | pushLogs _ _ _ hw _ _ =>
    rw [hw]
    intro w hm id
    obtain ⟨l, -, rfl⟩ := List.mem_map.1 hm
    simp [Write.target, Row.key]

/-- The target of a flush. -/
theorem target_of_mem_flushed {old new : Row} {w : Write Row Key} (h : w ∈ flushed old new) :
    w.target = old.key := by
  rw [mem_flushed h]
  rfl

/-- The rows of a transaction that sets the columns of an account. -/
theorem target_of_mem_sets {u v : User} {a : AuditLog}
    (hw : tx.writes = flushed (.user u) (.user v) ++ [.insert (.auditLog a)]) :
    ∀ w ∈ tx.writes, ∀ id, w.target ≠ .job id ∧ w.target ≠ .node id := by
  intro w hm id
  rw [hw, List.mem_append, List.mem_singleton] at hm
  rcases hm with hm | rfl
  · rw [target_of_mem_flushed hm]; simp [Row.key]
  · simp [Write.target, Row.key]

/-- The rows of a transaction that notes when a node was last seen. -/
theorem target_of_mem_seen {n n' : Node} (ups : List (Write Row Key))
    (hups : ∀ w ∈ ups, ∃ g, w.target = .nodeMetric n.id g)
    (hw : tx.writes = ups ++ flushed (.node n) (.node n')) :
    ∀ w ∈ tx.writes, ∀ id, w.target ≠ .job id := by
  intro w hm id
  rw [hw, List.mem_append] at hm
  rcases hm with hm | hm
  · obtain ⟨g, hg⟩ := hups w hm
    rw [hg]; simp
  · rw [target_of_mem_flushed hm]; simp [Row.key]

/-- The writes of `complete_job` besides that of the job. -/
theorem target_of_mem_bill {hours : Int} {owner : Option User} {a : AuditLog} :
    ∀ w ∈ billWrites hours owner ++ [Write.insert (Row.auditLog a)], ∀ id,
      w.target ≠ .job id := by
  intro w hm id
  rcases List.mem_append.1 hm with hm | hm
  · obtain ⟨uid, hu⟩ := target_of_mem_billWrites hm
    rw [hu]; simp
  · rw [List.mem_singleton.1 hm]; simp [Write.target, Row.key]

/-- The row under a key, by what each of the writes does to it. -/
theorem view_rel {R : Option Row → Option Row → Prop} {k : Key} (hrefl : ∀ o, R o o)
    (htrans : ∀ a b c, R a b → R b c → R a c)
    (h : ∀ w ∈ tx.writes, ∀ o, R o (w.on k o)) (db : Database) :
    R (db.get k) ((tx.view db).get k) := by
  rw [Tx.view, get_applyAll]
  exact foldl_on_rel hrefl htrans h _

/-- An update that goes first, by a transaction that does not touch the row again. -/
theorem get_view_of_first {w : Write Row Key} {rest : List (Write Row Key)} {k : Key}
    (hw : tx.writes = w :: rest) (hrest : ∀ v ∈ rest, v.target ≠ k) :
    (tx.view db).get k = w.on k (db.get k) := by
  rw [Tx.view, get_applyAll, hw, List.foldl_cons, foldl_on_of_ne hrest]

/-- An update of a job that goes first, by a transaction that touches no other job. -/
theorem job_view_update {old new : Job} {rest : List (Write Row Key)}
    (hw : tx.writes = .update (.job old) (.job new) :: rest)
    (hrest : ∀ w ∈ rest, ∀ id, w.target ≠ .job id) (id : Uuid) :
    (tx.view db).job id = if old.id = id then (db.job id).map (old.merge new) else db.job id := by
  apply Db.job_of_get
  rw [get_view_of_first hw fun w h => hrest w h id, Write.on, Db.get_job]
  by_cases h : old.id = id
  · subst h
    cases db.job old.id <;> simp [Row.key, Row.merge]
  · simp [Row.key, h]

/-- A new job, by a transaction that touches no other. -/
theorem job_view_insert {j : Job} {a : AuditLog}
    (hw : tx.writes = [.insert (.job j), .insert (.auditLog a)]) (id : Uuid) :
    (tx.view db).job id = if j.id = id then (db.job id).or (some j) else db.job id := by
  apply Db.job_of_get
  rw [get_view_of_first hw (by simp [Write.target, Row.key]), Write.on, Db.get_job]
  by_cases h : j.id = id
  · subst h
    cases db.job j.id <;> simp [Row.key]
  · simp [Row.key, h]

/-- An update of a node that goes first, by a transaction that touches no other node. -/
theorem node_view_update {old new : Node} {rest : List (Write Row Key)}
    (hw : tx.writes = .update (.node old) (.node new) :: rest)
    (hrest : ∀ w ∈ rest, ∀ id, w.target ≠ .node id) (id : Uuid) :
    (tx.view db).node id =
      if old.id = id then (db.node id).map (old.merge new) else db.node id := by
  apply Db.node_of_get
  rw [get_view_of_first hw fun w h => hrest w h id, Write.on, Db.get_node]
  by_cases h : old.id = id
  · subst h
    cases db.node old.id <;> simp [Row.key, Row.merge]
  · simp [Row.key, h]

/-- What deleting a row makes of a row that refers to it, or of one that does not. -/
theorem get_view_delete (db : Database) {view : Database} {k : Key} (k' : Key) {a : AuditLog}
    (hw : tx.writes = .insert (.auditLog a) ::
      ((referring view k).map (unrefWrite k) ++ [.delete k]))
    (ha : k' ≠ .auditLog a.id) (hk : k' ≠ k) :
    (∃ r ∈ referring view k, r.key = k' ∧
      (tx.view db).get k' = (unrefWrite k r).on k' (db.get k')) ∨
    ((∀ r ∈ referring view k, r.key ≠ k') ∧ (tx.view db).get k' = db.get k') := by
  have hdel : ∀ v ∈ [Write.delete (R := Row) k], v.target ≠ k' := by
    intro v hv
    rw [List.mem_singleton.1 hv]
    exact Ne.symm hk
  have hins : (Write.insert (Row.auditLog a) : Write Row Key).target ≠ k' := by
    simpa [Write.target, Row.key] using Ne.symm ha
  have hview : (tx.view db).get k' =
      ((referring view k).map (unrefWrite k)).foldl (fun o w => w.on k' o) (db.get k') := by
    rw [Tx.view, get_applyAll, hw, List.foldl_cons, List.foldl_append, foldl_on_of_ne hdel,
      Write.on_of_ne hins]
  by_cases hr : ∃ r ∈ referring view k, r.key = k'
  · obtain ⟨r, hmem, rfl⟩ := hr
    refine Or.inl ⟨r, hmem, rfl, ?_⟩
    have hnd : (((referring view k).map (unrefWrite k)).map Write.target).Nodup := by
      rw [List.map_map, show (Write.target ∘ unrefWrite k) = Row.key from
        funext fun r => target_unrefWrite k r]
      exact view.nodup.sublist (List.filter_sublist.map _)
    have hfold := foldl_on_of_mem hnd (List.mem_map_of_mem hmem) (db.get r.key)
    rw [target_unrefWrite] at hfold
    rw [hview]
    exact hfold
  · have hne : ∀ r ∈ referring view k, r.key ≠ k' := fun r hm he => hr ⟨r, hm, he⟩
    refine Or.inr ⟨hne, ?_⟩
    rw [hview, foldl_on_of_ne]
    intro w hw
    obtain ⟨r, hm, rfl⟩ := List.mem_map.1 hw
    rw [target_unrefWrite]
    exact hne r hm

/-- A job in the store that a deleted row left alone, or that lost its references to it. -/
theorem job_view_delete {nodeId : Uuid} {a : AuditLog} {e : Entry Row Key Cond} {view : Database}
    (h : (platform app rely refusals).Since req tx db) (he : e ∈ tx.log)
    (hv : view = e.db.insert (.auditLog a)) (hlocks : e.locks = deleteLocks view (.node nodeId))
    (hw : tx.writes = .insert (.auditLog a) ::
      ((referring view (.node nodeId)).map (unrefWrite (.node nodeId)) ++ [.delete (.node nodeId)]))
    (id : Uuid) :
    ((∀ r ∈ referring view (.node nodeId), r.key ≠ .job id) ∧ (tx.view db).job id = db.job id) ∨
      ∃ j, db.job id = some j ∧ (tx.view db).job id = some (j.cleared nodeId) := by
  rcases get_view_delete db (.job id) hw (by simp) (by simp) with
    ⟨r, hr, hk, hget⟩ | ⟨hall, hget⟩
  · right
    obtain ⟨j, rfl, rfl⟩ := Row.eq_job_of_key hk
    -- the row is locked since the deletion, so it is still the one the statement saw
    have hrow : view.get (.job j.id) = some (.job j) := Db.get_of_mem (List.mem_filter.1 hr).1
    have hthen : e.db.get (.job j.id) = some (.job j) := by
      rw [hv, Db.get_insert_of_ne (by simp [Row.key])] at hrow
      exact hrow
    have hlock : (⟨.job j.id, .update⟩ : Lock Key) ∈ e.locks := by
      rw [hlocks]
      exact List.mem_cons_of_mem _ (List.mem_map.2 ⟨_, hr, rfl⟩)
    have hnow : db.get (.job j.id) = some (.job j) :=
      ((h.frame e he _ hlock).1 (by simp)).trans hthen
    refine ⟨j, Db.get_job_iff.1 hnow, Db.job_of_get ?_⟩
    rw [hget, hnow]
    simp [unrefWrite, Schema.unref, Row.unref, Write.on, Row.key, Row.merge, Job.merge,
      Job.cleared]
  · exact Or.inl ⟨hall, Db.job_congr hget⟩

/-- **What a commit does to a job.** -/
theorem job_step (h : (platform app rely refusals).Committing db req tx) (id : Uuid) :
    JobStep app req tx id (db.job id) ((tx.view db).job id) := by
  have hsame : (∀ w ∈ tx.writes, w.target ≠ .job id) →
      JobStep app req tx id (db.job id) ((tx.view db).job id) := by
    intro hw
    rw [Db.job_congr (Tx.view_get hw db)]
    exact .same
  cases h.shape with
  | aside ha => exact hsame fun w hw => (ha.target w hw id).1
  | signup hw => exact hsame (by rw [hw]; simp [Write.target, Row.key])
  | sets hs hid hu hf hw => exact hsame fun w hm => (target_of_mem_sets hw w hm id).1
  | registerNode _ _ _ _ _ _ _ _ hw => exact hsame (by rw [hw]; simp [Write.target, Row.key])
  | heartbeat _ _ hw =>
    exact hsame fun w hm => target_of_mem_seen [] (by simp) hw w hm id
  | pushMetrics _ _ hups hw => exact hsame fun w hm => target_of_mem_seen _ hups hw w hm id
  | drain _ _ _ _ hw => exact hsame (by rw [hw]; simp [Write.target, Row.key])
  | drained _ _ _ hw => exact hsame (by rw [hw]; simp)
  | undrain _ _ _ hw => exact hsame (by rw [hw]; simp [Write.target, Row.key])
  | deleteNode hr hmiss he hv hlocks hw hlogs =>
    rename_i caller nodeId n u a e view
    have hid := id_of_read_node hr
    subst hid
    rcases job_view_delete h.toSince he hv hlocks hw id with ⟨-, hjob⟩ | ⟨j, hj, hjob⟩
    · rw [hjob]; exact .same
    · rw [hj, hjob]; exact .nodeDeleted rfl hmiss (by rw [hw]; simp)
  | deletedNode _ _ _ _ hw => exact hsame (by rw [hw]; simp [Write.target, Row.key])
  | submitJob hu hact hcost hj hfresh hw hlogs =>
    rename_i caller p u j a
    by_cases hid : j.id = id
    · have hnone : db.get (.job id) = none := by rw [← hid]; exact h.get_of_fresh hfresh
      have hview : (tx.view db).job id = some j := by
        apply Db.job_of_get
        rw [get_view_of_first hw (by simp [Write.target, Row.key]), hnone]
        simp [Write.on, Row.key, hid]
      have hbefore : db.job id = none := by rw [Db.job, hnone]
      rw [hview, hbefore]
      exact .submitted rfl hu hid hj
    · exact hsame (by rw [hw]; simp [Write.target, Row.key, hid])
  | claimJob hn hdrain hmiss hlock hfound hw hlogs =>
    rename_i bearer n j now a
    rw [job_view_update hw (by simp [Write.target, Row.key]) id]
    by_cases hid : j.id = id
    · subst hid
      obtain ⟨hget, hclaim⟩ := h.get_of_locked hlock
      rw [if_pos rfl, Db.get_job_iff.1 hget]
      have hmerge : (some j).map (j.merge (j.claimedBy n.id now)) =
          some (j.claimedBy n.id now) := by
        simp [Job.merge, Job.claimedBy]
      rw [hmerge]
      exact .claimed rfl hn hdrain hmiss hclaim hfound (by rw [hw]; exact List.mem_cons_self ..)
    · rw [if_neg hid]; exact .same
  | completeJob hn hread hassign hallowed hhours howner hfound hw hlogs =>
    rename_i bearer jobId p n old completedAt now owner hours a
    have hid := id_of_read_job hread
    rw [job_view_update hw target_of_mem_bill id]
    by_cases hj : old.id = id
    · subst hj
      subst hid
      obtain ⟨cur, hcur⟩ := job_of_found h.toSince hfound
      rw [if_pos rfl, hcur]
      exact .completed rfl hn hread hassign hallowed (by rw [hw]; exact List.mem_cons_self ..)
    · rw [if_neg hj]; exact .same
  | cancelQueued hc hread hstatus hfound hw hlogs =>
    rename_i jobId event old now u owner target a
    have hid := id_of_read_job hread
    rw [job_view_update hw (by simp [Write.target, Row.key]) id]
    by_cases hj : old.id = id
    · subst hj
      subst hid
      obtain ⟨cur, hcur⟩ := job_of_found h.toSince hfound
      rw [if_pos rfl, hcur]
      exact .cancelled hc hread hstatus (by rw [hw]; exact List.mem_cons_self ..)
    · rw [if_neg hj]; exact .same
  | requestCancel hc hread hstatus hreq hfound hw hlogs =>
    rename_i jobId event old now u owner target a
    have hid := id_of_read_job hread
    rw [job_view_update hw (by simp [Write.target, Row.key]) id]
    by_cases hj : old.id = id
    · subst hj
      subst hid
      obtain ⟨cur, hcur⟩ := job_of_found h.toSince hfound
      rw [if_pos rfl, hcur]
      exact .cancelRequested hc hread hstatus hreq (by rw [hw]; exact List.mem_cons_self ..)
    · rw [if_neg hj]; exact .same
  | cancelAgain _ _ _ _ hw => exact hsame (by rw [hw]; simp [Write.target, Row.key])

/-- How an update changes the status of a job. -/
def StatusWrite (req : Request) (old new : Job) : Prop :=
  (∃ bearer, req = .claimJob bearer) ∨ new.status.isTerminal = true ∨ new.status = old.status

/-- **A transaction writes a job once.**  An update among its writes is what the job
becomes: it is claimed, comes to its end, or keeps its status. -/
theorem job_of_update (h : (platform app rely refusals).Committing db req tx) {old new : Job}
    (hmem : .update (.job old) (.job new) ∈ tx.writes) :
    (tx.view db).job old.id = (db.job old.id).map (old.merge new) ∧ StatusWrite req old new := by
  have hfirst : ∀ {j j' : Job} {rest : List (Write Row Key)},
      tx.writes = .update (.job j) (.job j') :: rest →
      (∀ w ∈ rest, ∀ id, w.target ≠ .job id) → StatusWrite req j j' →
      (tx.view db).job old.id = (db.job old.id).map (old.merge new) ∧
        StatusWrite req old new := by
    intro j j' rest hw hrest hstatus
    rw [hw] at hmem
    rcases List.mem_cons.1 hmem with he | hm
    · cases he
      exact ⟨by rw [job_view_update hw hrest, if_pos rfl], hstatus⟩
    · exact absurd rfl (hrest _ hm old.id)
  have hno : (∀ w ∈ tx.writes, w.target ≠ .job old.id) →
      (tx.view db).job old.id = (db.job old.id).map (old.merge new) ∧
        StatusWrite req old new :=
    fun hne => absurd rfl (hne _ hmem)
  cases h.shape with
  | aside ha => exact hno fun w hw => (ha.target w hw old.id).1
  | signup hw => exact hno (by rw [hw]; simp [Write.target, Row.key])
  | sets hs hid hu hf hw => exact hno fun w hm => (target_of_mem_sets hw w hm old.id).1
  | registerNode _ _ _ _ _ _ _ _ hw => exact hno (by rw [hw]; simp [Write.target, Row.key])
  | heartbeat _ _ hw =>
    exact hno fun w hm => target_of_mem_seen [] (by simp) hw w hm old.id
  | pushMetrics _ _ hups hw => exact hno fun w hm => target_of_mem_seen _ hups hw w hm old.id
  | drain _ _ _ _ hw => exact hno (by rw [hw]; simp [Write.target, Row.key])
  | drained _ _ _ hw => exact hno (by rw [hw]; simp)
  | undrain _ _ _ hw => exact hno (by rw [hw]; simp [Write.target, Row.key])
  | deleteNode hr hmiss he hv hlocks hw hlogs =>
    rename_i caller nodeId n u a e view
    -- the update is the `ON DELETE` action on the row `old` of the view
    rw [hw] at hmem
    simp only [List.mem_cons, reduceCtorEq, List.mem_append, List.mem_map, List.not_mem_nil,
      or_false, false_or] at hmem
    obtain ⟨r, hr', hun⟩ := hmem
    have hrow : r = .job old := by
      unfold unrefWrite at hun
      split at hun <;> cases hun
      rfl
    subst hrow
    rcases get_view_delete db (.job old.id) hw (by simp) (by simp) with
      ⟨r', hmem', hk, hget⟩ | ⟨hall, -⟩
    · have hsame : r' = .job old :=
        List.inj_on_of_nodup_map view.nodup (List.mem_filter.1 hmem').1
          (List.mem_filter.1 hr').1 hk
      subst hsame
      refine ⟨Db.job_of_get ?_, Or.inr (Or.inr ?_)⟩
      · rw [hget, hun, Write.on, Db.get_job]
        cases db.job old.id <;> simp [Row.key, Row.merge]
      · unfold unrefWrite at hun
        split at hun
        · rename_i r' hunref
          cases hun
          cases hunref
          rfl
        · cases hun
    · exact absurd rfl (hall _ hr')
  | deletedNode _ _ _ _ hw => exact hno (by rw [hw]; simp [Write.target, Row.key])
  | submitJob hu hact hcost hj hfresh hw => rw [hw] at hmem; simp at hmem
  | claimJob _ _ _ _ _ hw =>
    exact hfirst hw (by simp [Write.target, Row.key]) (Or.inl ⟨_, rfl⟩)
  | completeJob hn hread hassign hallowed hhours howner hfound hw hlogs =>
    exact hfirst hw target_of_mem_bill (Or.inr (Or.inl (isTerminal_completionTarget _ _)))
  | cancelQueued _ _ _ _ hw =>
    exact hfirst hw (by simp [Write.target, Row.key]) (Or.inr (Or.inl rfl))
  | requestCancel _ _ _ _ _ hw =>
    exact hfirst hw (by simp [Write.target, Row.key]) (Or.inr (Or.inr rfl))
  | cancelAgain _ _ _ _ hw => exact hno (by rw [hw]; simp [Write.target, Row.key])

/-- A flush of a node, after writes of other tables. -/
theorem node_view_flushed {n n' : Node} {ups : List (Write Row Key)}
    (hups : ∀ w ∈ ups, ∀ id, w.target ≠ .node id)
    (hw : tx.writes = ups ++ flushed (.node n) (.node n')) (id : Uuid) : (tx.view db).node id =
      if n.id = id then (db.node id).map (n.merge n') else db.node id := by
  have hview : (tx.view db).get (.node id) =
      (flushed (.node n) (.node n')).foldl (fun o w => w.on (.node id) o) (db.get (.node id)) := by
    rw [Tx.view, get_applyAll, hw, List.foldl_append, foldl_on_of_ne fun w h => hups w h id]
  unfold flushed at hview
  split at hview
  · -- an object that has not changed writes no column
    rename_i hsame
    rw [Db.node_congr hview, Row.node.inj hsame]
    have hmerge : ∀ cur, n.merge n cur = cur := fun cur => by simp [Node.merge]
    by_cases hid : n.id = id
    · rw [if_pos hid]
      cases db.node id <;> simp [hmerge]
    · rw [if_neg hid]
  · rw [List.foldl_cons, List.foldl_nil, Write.on, Db.get_node db id] at hview
    refine Db.node_of_get ?_
    rw [hview]
    by_cases hid : n.id = id
    · subst hid
      cases db.node n.id <;> simp [Row.key, Row.merge]
    · simp [Row.key, hid]

/-- A flush of the time a node was last seen, after writes of other tables. -/
theorem node_view_seen {n : Node} {now : Time} (ups : List (Write Row Key))
    (hups : ∀ w ∈ ups, ∀ id, w.target ≠ .node id)
    (hw : tx.writes = ups ++ flushed (.node n) (.node { n with lastSeenAt := some now }))
    (id : Uuid) : NodeStep req tx id (db.node id) ((tx.view db).node id) := by
  rw [node_view_flushed hups hw id]
  by_cases hid : n.id = id
  · rw [if_pos hid]
    cases db.node id with
    | none => exact .same
    | some cur =>
      rw [Option.map_some, show n.merge { n with lastSeenAt := some now } cur =
        { cur with lastSeenAt := col n.lastSeenAt (some now) cur.lastSeenAt } by
          simp [Node.merge]]
      exact .seen
  · rw [if_neg hid]; exact .same

/-- The node that was deleted is gone, and the others stay. -/
theorem node_view_delete {view : Database} {nodeId : Uuid} {a : AuditLog}
    (hw : tx.writes = .insert (.auditLog a) ::
      ((referring view (.node nodeId)).map (unrefWrite (.node nodeId)) ++ [.delete (.node nodeId)]))
    (id : Uuid) : (tx.view db).node id = if nodeId = id then none else db.node id := by
  by_cases hn : nodeId = id
  · subst hn
    have hnone : (tx.view db).get (.node nodeId) = none := by
      rw [Tx.view, get_applyAll, hw, ← List.cons_append, List.foldl_append]
      simp [Write.on]
    rw [if_pos rfl, Db.node, hnone]
  · rw [if_neg hn]
    rcases get_view_delete db (.node id) hw (by simp) (by simp [Ne.symm hn]) with
      ⟨r, hr, hk, hget⟩ | ⟨-, hget⟩
    · -- a node does not refer to nodes
      obtain ⟨m, rfl, -⟩ := Row.eq_node_of_key hk
      have hrefs := (List.mem_filter.1 hr).2
      simp [Schema.refs, Row.refs] at hrefs
    · exact Db.node_congr hget

/-- **What a commit does to a node.** -/
theorem node_step (h : (platform app rely refusals).Committing db req tx) (id : Uuid) :
    NodeStep req tx id (db.node id) ((tx.view db).node id) := by
  have hsame : (∀ w ∈ tx.writes, w.target ≠ .node id) →
      NodeStep req tx id (db.node id) ((tx.view db).node id) := by
    intro hw
    rw [Db.node_congr (Tx.view_get hw db)]
    exact .same
  cases h.shape with
  | aside ha => exact hsame fun w hw => (ha.target w hw id).2.1
  | signup hw => exact hsame (by rw [hw]; simp [Write.target, Row.key])
  | sets hs hid hu hf hw => exact hsame fun w hm => (target_of_mem_sets hw w hm id).2
  | registerNode hread hcheck hconsumed huser hgpu hstatus hfresh hfound hw hlogs =>
    rename_i client p c n now a
    by_cases hid : n.id = id
    · have hnone : db.get (.node id) = none := by rw [← hid]; exact h.get_of_fresh hfresh
      have hview : (tx.view db).node id = some n := by
        apply Db.node_of_get
        rw [get_view_of_first hw (by simp [Write.target, Row.key]), hnone]
        simp [Write.on, Row.key, hid]
      have hbefore : db.node id = none := by rw [Db.node, hnone]
      rw [hview, hbefore]
      exact .registered rfl hid hstatus hgpu (by rw [hw]; exact List.mem_cons_self ..)
    · exact hsame (by rw [hw]; simp [Write.target, Row.key, hid])
  | heartbeat hn hid hw => exact node_view_seen [] (by simp) hw id
  | pushMetrics hn hid hups hw =>
    refine node_view_seen _ (fun w hm id => ?_) hw id
    obtain ⟨g, hg⟩ := hups w hm
    rw [hg]; simp
  | drain hd hread hstatus hfound hw hlogs =>
    rename_i nodeId event n u target a
    have hid := id_of_read_node hread
    rw [node_view_update hw (by simp [Write.target, Row.key]) id]
    by_cases hn : n.id = id
    · subst hn
      subst hid
      obtain ⟨cur, hcur⟩ := node_of_found h.toSince hfound
      rw [if_pos rfl, hcur, Option.map_some,
        show n.merge { n with status := .draining } cur = { cur with status := .draining } by
          simp [Node.merge, col_of_ne (Ne.symm hstatus)]]
      exact .drained hd hread hstatus
    · rw [if_neg hn]; exact .same
  | drained _ _ _ hw => exact hsame (by rw [hw]; simp)
  | undrain hread hstatus hfound hw hlogs =>
    rename_i caller nodeId n u a
    have hid := id_of_read_node hread
    rw [node_view_update hw (by simp [Write.target, Row.key]) id]
    by_cases hn : n.id = id
    · subst hn
      subst hid
      obtain ⟨cur, hcur⟩ := node_of_found h.toSince hfound
      rw [if_pos rfl, hcur, Option.map_some,
        show n.merge { n with status := .online } cur = { cur with status := .online } by
          simp [Node.merge, hstatus, col]]
      exact .undrained rfl hread hstatus
    · rw [if_neg hn]; exact .same
  | deleteNode hr hmiss he hv hlocks hw hlogs =>
    rename_i caller nodeId n u a e view
    have hid := id_of_read_node hr
    subst hid
    rw [node_view_delete hw id]
    by_cases hn : n.id = id
    · subst hn
      rw [if_pos rfl]; exact .deleted rfl (by rw [hw]; simp)
    · rw [if_neg hn]; exact .same
  | deletedNode _ _ _ _ hw => exact hsame (by rw [hw]; simp [Write.target, Row.key])
  | submitJob _ _ _ _ _ hw => exact hsame (by rw [hw]; simp [Write.target, Row.key])
  | claimJob _ _ _ _ _ hw => exact hsame (by rw [hw]; simp [Write.target, Row.key])
  | completeJob hn hread hassign hallowed hhours howner hfound hw hlogs =>
    refine hsame fun w hm => ?_
    rw [hw, List.mem_cons, List.mem_append, List.mem_singleton] at hm
    rcases hm with rfl | hm | rfl
    · simp [Write.target, Row.key]
    · obtain ⟨uid, hu⟩ := target_of_mem_billWrites hm
      rw [hu]; simp
    · simp [Write.target, Row.key]
  | cancelQueued _ _ _ _ hw => exact hsame (by rw [hw]; simp [Write.target, Row.key])
  | requestCancel _ _ _ _ _ hw => exact hsame (by rw [hw]; simp [Write.target, Row.key])
  | cancelAgain _ _ _ _ hw => exact hsame (by rw [hw]; simp [Write.target, Row.key])

/-- A flush of an account, between writes of other tables. -/
theorem user_view_flushed {u u' : User} {p q : List (Write Row Key)}
    (hw : tx.writes = p ++ (flushed (.user u) (.user u') ++ q))
    (hpre : ∀ w ∈ p, ∀ id, w.target ≠ .user id) (hpost : ∀ w ∈ q, ∀ id, w.target ≠ .user id)
    (id : Uuid) : (tx.view db).user id =
      if u.id = id then (db.user id).map (u.merge u') else db.user id := by
  have hview : (tx.view db).get (.user id) =
      (flushed (.user u) (.user u')).foldl (fun o w => w.on (.user id) o) (db.get (.user id)) := by
    rw [Tx.view, get_applyAll, hw, List.foldl_append, List.foldl_append,
      foldl_on_of_ne (fun w hm => hpre w hm id), foldl_on_of_ne (fun w hm => hpost w hm id)]
  unfold flushed at hview
  split at hview
  · -- an object that has not changed writes no column
    rename_i hsame
    rw [Db.user_congr hview, Row.user.inj hsame]
    have hmerge : ∀ cur, u.merge u cur = cur := fun cur => by simp [User.merge]
    by_cases hid : u.id = id
    · rw [if_pos hid]
      cases db.user id <;> simp [hmerge]
    · rw [if_neg hid]
  · rw [List.foldl_cons, List.foldl_nil, Write.on, Db.get_user db id] at hview
    refine Db.user_of_get ?_
    rw [hview]
    by_cases hid : u.id = id
    · subst hid
      cases db.user u.id <;> simp [Row.key, Row.merge]
    · simp [Row.key, hid]

/-- **What a commit does to an account.** -/
theorem user_step (h : (platform app rely refusals).Committing db req tx) (id : Uuid) :
    UserStep req tx id (db.user id) ((tx.view db).user id) := by
  have hsame : (∀ w ∈ tx.writes, w.target ≠ .user id) →
      UserStep req tx id (db.user id) ((tx.view db).user id) := by
    intro hw
    rw [Db.user_congr (Tx.view_get hw db)]
    exact .same
  cases h.shape with
  | aside ha => exact hsame fun w hw => (ha.target w hw id).2.2
  | signup hw hu hfresh hlogs =>
    rename_i client p u a
    by_cases hid : u.id = id
    · have hnone : db.get (.user id) = none := by rw [← hid]; exact h.get_of_fresh hfresh
      have hview : (tx.view db).user id = some u := by
        apply Db.user_of_get
        rw [get_view_of_first hw (by simp [Write.target, Row.key]), hnone]
        simp [Write.on, Row.key, hid]
      have hbefore : db.user id = none := by rw [Db.user, hnone]
      rw [hview, hbefore]
      exact .signedUp rfl hid hu
    · exact hsame (by rw [hw]; simp [Write.target, Row.key, hid])
  | sets hs hid hu hf hw hflush hlogs =>
    rename_i uid event f data u a
    rw [user_view_flushed (p := []) hw (by simp) (by simp [Write.target, Row.key]) id]
    by_cases hx : u.id = id
    · rw [if_pos hx]
      cases db.user id with
      | none => exact .same
      | some cur =>
        subst hid
        subst hx
        exact .set hs hu rfl
    · rw [if_neg hx]; exact .same
  | registerNode _ _ _ _ _ _ _ _ hw => exact hsame (by rw [hw]; simp [Write.target, Row.key])
  | heartbeat _ _ hw =>
    refine hsame fun w hm => ?_
    rw [hw] at hm
    rw [target_of_mem_flushed hm]
    simp [Row.key]
  | pushMetrics _ _ hups hw =>
    refine hsame fun w hm => ?_
    rw [hw, List.mem_append] at hm
    rcases hm with hm | hm
    · obtain ⟨g, hg⟩ := hups w hm
      rw [hg]; simp
    · rw [target_of_mem_flushed hm]
      simp [Row.key]
  | drain _ _ _ _ hw => exact hsame (by rw [hw]; simp [Write.target, Row.key])
  | drained _ _ _ hw => exact hsame (by rw [hw]; simp)
  | undrain _ _ _ hw => exact hsame (by rw [hw]; simp [Write.target, Row.key])
  | deleteNode _ _ _ _ _ hw =>
    refine hsame fun w hm => ?_
    rw [hw, List.mem_cons, List.mem_append, List.mem_singleton] at hm
    rcases hm with rfl | hm | rfl
    · simp [Write.target, Row.key]
    · -- an account refers to nothing
      obtain ⟨r, hr, rfl⟩ := List.mem_map.1 hm
      rw [target_unrefWrite]
      intro hk
      obtain ⟨u, rfl, -⟩ := Row.eq_user_of_key hk
      have hrefs := (List.mem_filter.1 hr).2
      simp [Schema.refs, Row.refs] at hrefs
    · simp [Write.target]
  | deletedNode _ _ _ _ hw => exact hsame (by rw [hw]; simp [Write.target, Row.key])
  | submitJob _ _ _ _ _ hw => exact hsame (by rw [hw]; simp [Write.target, Row.key])
  | claimJob _ _ _ _ _ hw => exact hsame (by rw [hw]; simp [Write.target, Row.key])
  | completeJob hn hread hassign hallowed hhours howner hfound hw hlogs =>
    cases howner' : ‹Option User› with
    | none =>
      subst howner'
      exact hsame (by rw [hw]; simp [billWrites, Write.target, Row.key])
    | some u =>
      subst howner'
      have hid := id_of_read_user howner.1
      rw [user_view_flushed (p := [.update _ _]) hw (by simp [Write.target, Row.key])
        (by simp [Write.target, Row.key]) id]
      by_cases hx : u.id = id
      · rw [if_pos hx]
        cases db.user id with
        | none => exact .same
        | some cur => exact .billed rfl hread hallowed (hid.symm.trans hx) ⟨_, howner.1⟩ hx
      · rw [if_neg hx]; exact .same
  | cancelQueued _ _ _ _ hw => exact hsame (by rw [hw]; simp [Write.target, Row.key])
  | requestCancel _ _ _ _ _ hw => exact hsame (by rw [hw]; simp [Write.target, Row.key])
  | cancelAgain _ _ _ _ hw => exact hsame (by rw [hw]; simp [Write.target, Row.key])

end GpuNetwork
