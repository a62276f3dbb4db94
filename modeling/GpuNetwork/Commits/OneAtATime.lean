import GpuNetwork.Commits.Effects
import GpuNetwork.Store.Serial

/-!
# Commits of one request at a time

Where requests do not overlap, what a handler has read is still there when it commits.

* `serially` — the specification of the control plane in such runs.
* `job_of_read`, `node_of_read`, `user_of_read`, `idle_of_missed` — what its reads say
  about the store it commits on.
* `missed_of_removed` — a node that goes had no running job.
-/

namespace GpuNetwork

open ReadCommitted ReadCommitted.Spec

/-- The specification under which nobody else commits. -/
def serially (app : App) : Spec Row Key Cond Request ApiError Response :=
  platform app (fun _ _ a b => a = b) True

variable {app : App} {db : Database} {req : Request} {tx : Transaction}

theorem job_of_read (h : (serially app).Since req tx db) {w : Cond} {j : Job}
    (hr : tx.Read w (.job j)) : db.job j.id = some j :=
  Db.get_job_iff.1 (h.get_of_read (fun _ _ _ he => he) hr)

theorem node_of_read (h : (serially app).Since req tx db) {w : Cond} {n : Node}
    (hr : tx.Read w (.node n)) : db.node n.id = some n :=
  Db.get_node_iff.1 (h.get_of_read (fun _ _ _ he => he) hr)

theorem user_of_read (h : (serially app).Since req tx db) {w : Cond} {u : User}
    (hr : tx.Read w (.user u)) : db.user u.id = some u :=
  Db.get_user_iff.1 (h.get_of_read (fun _ _ _ he => he) hr)

/-- The node whose token a request has shown is in the store. -/
theorem node_of_asNode (h : (serially app).Since req tx db) {bearer : Option Str} {n : Node}
    (hn : AsNode app tx bearer n) : db.node n.id = some n := by
  obtain ⟨token, hash, -, -, -, hread⟩ := hn.bearer
  exact node_of_read h hread

/-- A node on which no running job was found has none. -/
theorem idle_of_missed (h : (serially app).Since req tx db) {nodeId : Uuid}
    (hm : tx.Missed (.runningForNode nodeId)) {id : Uuid} {j : Job} (hj : db.job id = some j)
    (hrun : j.status = .running) : j.assignedNodeId ≠ some nodeId := by
  intro ha
  have hid := Db.id_of_job hj
  subst hid
  have hholds := h.holds_of_missed (fun _ _ _ he => he) hm (Db.get_job_iff.2 hj)
  simp [Schema.holds, Cond.holds, Job.runningOn, ha, hrun] at hholds

/-- A user whose identifier was not found is not there. -/
theorem user_eq_none_of_missed (h : (serially app).Since req tx db) {id : Uuid}
    (hm : tx.Missed (.byKey (.user id))) : db.user id = none := by
  cases hu : db.user id with
  | none => rfl
  | some u =>
    have hid := Db.id_of_user hu
    subst hid
    have hholds := h.holds_of_missed (fun _ _ _ he => he) hm (Db.get_user_iff.2 hu)
    simp [Schema.holds, Cond.holds, Row.key] at hholds

/-- Finishing a job that is still as it was read. -/
@[simp] theorem merge_terminated (j : Job) (status : JobStatus) (exitCode : Option Int)
    (message : Option Str) (now : Time) :
    j.merge (j.terminated status exitCode message now) j =
      j.terminated status exitCode message now := by
  simp [Job.merge, Job.terminated]

@[simp] theorem merge_cancelRequested (j : Job) (now : Time) :
    j.merge (j.cancelRequested now) j = j.cancelRequested now := by
  simp [Job.merge, Job.cancelRequested]

variable {rely : Rely} {refusals : Prop}

/-- A request that deletes a node has looked for its running job and found none, and has
cleared the references to the node that it saw. -/
theorem removal_of_removed (h : (platform app rely refusals).Committing db req tx) {id : Uuid}
    {n : Node} (hn : db.node id = some n) (hgone : (tx.view db).node id = none) :
    tx.Missed (.runningForNode id) ∧ ∃ a e, e ∈ tx.log ∧
      tx.writes = .insert (.auditLog a) ::
        ((referring (e.db.insert (.auditLog a)) (.node id)).map (unrefWrite (.node id)) ++
          [.delete (.node id)]) := by
  have hstep := node_step h id
  rw [hn, hgone] at hstep
  cases hstep with
  | deleted hreq hw =>
    have hshape := h.shape
    rw [hreq] at hshape
    obtain ⟨a, e, he, ⟨view, hmiss, rfl, -, hws⟩ | ⟨-, hws⟩⟩ := shape_of_deleteNode hshape
    · exact ⟨hmiss, a, e, he, hws⟩
    · rw [hws] at hw
      simp at hw

/-- A request that deletes a node has looked for its running job, and found none. -/
theorem missed_of_removed (h : (platform app rely refusals).Committing db req tx) {id : Uuid}
    {n : Node} (hn : db.node id = some n) (hgone : (tx.view db).node id = none) :
    tx.Missed (.runningForNode id) := (removal_of_removed h hn hgone).1

end GpuNetwork
