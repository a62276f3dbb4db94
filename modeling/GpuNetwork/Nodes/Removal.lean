import GpuNetwork.Jobs.Assignment
import GpuNetwork.Jobs.Occupancy

/-!
# Removing a node

`delete_node` looks for a job that runs on the node and deletes the row if there is none.
The foreign key of the jobs is `ON DELETE SET NULL`, so a job that has been claimed for the
node between the two goes on running on no node at all.

* `NoOrphans` — a job that runs has a node.
* `Strands` — the check of the deletion no longer holds when it commits.
* `Lodged`, `lodged_of_reach` — the node that a running job has is there.
* `Stranded` — a job that runs on no node, since its node has been removed.
-/

namespace GpuNetwork

open ReadCommitted ReadCommitted.Spec

/-- A job that runs has a node. -/
def NoOrphans (db : Database) : Prop :=
  ∀ id j, db.job id = some j → j.status = .running → j.assignedNodeId ≠ none

/-- The write removes a node for which the query of `get_running_for_node` finds a job. -/
def strands (db : Database) : Write Row Key → Bool
  | .delete (.node nodeId) => db.rows.any (Cond.runningForNode nodeId).holds
  | _ => false

def Strands (db : Database) (tx : Transaction) : Prop := ∃ w ∈ tx.writes, strands db w = true

instance (db : Database) (tx : Transaction) : Decidable (Strands db tx) :=
  inferInstanceAs (Decidable (∃ w ∈ tx.writes, strands db w = true))

/-- What a deletion found out about its node holds when it commits. -/
def NeverStrands : Terms Row Request ApiError Response :=
  OnCommits fun s _ th => ¬ Strands s.db th.ses.tx

variable {app : App} {rely : Rely} {refusals : Prop} {db : Database} {req : Request}
  {tx : Transaction}

/-- A commit that strands no job leaves every running job its node. -/
theorem noOrphans_of_committing (h : (platform app rely refusals).Committing db req tx)
    (hkeep : ¬ Strands db tx) (hdb : NoOrphans db) : NoOrphans (tx.view db) := by
  intro id j' hj' hrun
  have hstep := job_step h id
  rw [hj'] at hstep
  generalize hb : db.job id = o at hstep
  cases hstep with
  | same => exact hdb id j' hb hrun
  | submitted hreq hu hid hj => rw [hj] at hrun; cases hrun
  | claimed hreq hn hdrain hmiss hclaim hfound hw => exact fun hnone => by cases hnone
  | completed hreq hn hread hassign hallowed hw =>
    rename_i bearer p n old cur now
    have hterm := isTerminal_completionTarget old p.exitCode
    rw [status_merge_terminated (ne_of_allowed hallowed)] at hrun
    rw [hrun] at hterm
    cases hterm
  | cancelled hreq hread hstatus hw =>
    rw [status_merge_terminated (by rw [hstatus]; simp)] at hrun
    cases hrun
  | cancelRequested hreq hread hstatus hnone hw =>
    have hcur := hdb id _ hb
    simp only [Job.merge, Job.cancelRequested, col_self] at hrun ⊢
    exact hcur hrun
  | nodeDeleted hreq hmiss hw =>
    rename_i caller n j
    have hnode := hdb id j hb hrun
    -- the job does not run on the node that goes
    have hother : j.assignedNodeId ≠ some n.id := by
      intro hn
      have hany : db.rows.any (Cond.runningForNode n.id).holds = true :=
        exists_running_iff.2 ⟨id, j, hb, runningOn_iff.2 ⟨hn, hrun⟩⟩
      exact hkeep ⟨_, hw, hany⟩
    simpa [Job.cleared, setNull, hother] using hnode

/-- **No running job loses its node**, in every run in which a deletion commits only while
no job runs on its node. -/
theorem running_jobs_keep_their_node (app : App) {db : Database} (hdb : NoOrphans db)
    (clock : Time) {s : System} (h : Reach (controlPlane app) NeverStrands (idle db clock) s) :
    NoOrphans s.db := by
  refine invariant (P := onward app) (platform_valid app _ _) (fun s l s' hs _ _ => ?_) NoOrphans
    (fun s l s' i th ht hc hcom hI => noOrphans_of_committing hcom (ht i th hc) hI)
    (ok_of_no_threads rfl) hdb h
  exact kept_of_commits (P := onward app) trivial
    (fun db req tx hcom _ _ => onward_of_committing hcom) hs

/-! ## The foreign key -/

/-- The node that a running job has is there. -/
def Lodged (db : Database) : Prop :=
  ∀ id j nodeId, db.job id = some j → j.runningOn nodeId = true → (db.node nodeId).isSome

/-- While a transaction holds the lock of a deletion on a node, no commit puts a job there. -/
def KeepsOff : Rely := fun _ tx a b => ∀ nodeId, (⟨.node nodeId, .update⟩ : Lock Key) ∈ tx.locks →
  ∀ id j', b.job id = some j' → j'.assignedNodeId = some nodeId →
    ∃ j, a.job id = some j ∧ j.assignedNodeId = some nodeId

/-- The specification of the platform under the foreign key of the jobs. -/
abbrev fenced (app : App) : Spec Row Key Cond Request ApiError Response :=
  platform app KeepsOff True

/-- A claim shares the lock of its node. -/
theorem keepsOff_of_commits {s : System} (hlocks : LocksFree s) {l : Label Request} {i j : Nat}
    {th tj : Pending} (hc : Commits s l i th) (hji : j ≠ i) (hj : s.threads[j]? = some tj)
    (h : (platform app rely refusals).Committing s.db th.req th.ses.tx) :
    KeepsOff tj.req tj.ses.tx s.db (th.ses.tx.view s.db) := by
  intro nodeId hlock id j' hj' hassign
  have hstep := job_step h id
  rw [hj'] at hstep
  generalize hb : s.db.job id = o at hstep
  cases hstep with
  | same => exact ⟨j', rfl, hassign⟩
  | submitted hreq hu hid hjob => rw [hjob] at hassign; cases hassign
  | claimed hreq hn hdrain hmiss hclaim hfound hw =>
    rename_i bearer n job now
    have hid : n.id = nodeId := Option.some.inj hassign
    subst hid
    by_cases hold : job.assignedNodeId = some n.id
    · exact ⟨job, rfl, hold⟩
    · obtain ⟨e, he, -, mode, hmode⟩ := hfound hold
      have hfree := hlocks.free j i tj th hji hj hc.1 _ hlock ⟨.node n.id, mode⟩
        (List.mem_flatMap.2 ⟨e, he, hmode⟩)
      simp [Lock.conflicts, LockMode.conflicts] at hfree
  | completed hreq hn hread hold hallowed hw =>
    exact ⟨_, rfl, by simpa [Job.merge, Job.terminated] using hassign⟩
  | cancelled hreq hread hstatus hw =>
    exact ⟨_, rfl, by simpa [Job.merge, Job.terminated] using hassign⟩
  | cancelRequested hreq hread hstatus hnone hw =>
    exact ⟨_, rfl, by simpa [Job.merge, Job.cancelRequested] using hassign⟩
  | nodeDeleted hreq hmiss hw =>
    simp only [Job.cleared, setNull] at hassign
    split at hassign
    · cases hassign
    · exact ⟨_, rfl, hassign⟩

/-- A job that is on a node under the lock of a deletion was there when the lock was taken. -/
theorem assigned_then (h : (fenced app).Since req tx db)
    {e : Entry Row Key Cond} (he : e ∈ tx.log) {nodeId : Uuid}
    (hlock : (⟨.node nodeId, .update⟩ : Lock Key) ∈ e.locks) {id : Uuid} {j : Job}
    (hj : db.job id = some j) (hassign : j.assignedNodeId = some nodeId) :
    ∃ j₀, e.db.job id = some j₀ ∧ j₀.assignedNodeId = some nodeId := by
  refine h.keeps he (I := fun d => ∀ j, d.job id = some j → j.assignedNodeId = some nodeId →
    ∃ j₀, e.db.job id = some j₀ ∧ j₀.assignedNodeId = some nodeId)
    (fun tx' a b he' hoff hI j' hj' hassign' => ?_)
    (fun j' hj' hassign' => ⟨j', hj', hassign'⟩) j hj hassign
  obtain ⟨j₁, hj₁, hassign₁⟩ := hoff nodeId (List.mem_flatMap.2 ⟨e, he', hlock⟩) id j' hj' hassign'
  exact hI j₁ hj₁ hassign₁

/-- **A deletion leaves no job on its node.** -/
theorem unassigned_of_deletion (h : (fenced app).Committing db req tx) {caller : Caller}
    {nodeId : Uuid} (hreq : req = .deleteNode caller nodeId)
    (hw : .delete (.node nodeId) ∈ tx.writes) {id : Uuid} {j : Job}
    (hj : (tx.view db).job id = some j) : j.assignedNodeId ≠ some nodeId := by
  subst hreq
  intro hassign
  obtain ⟨a, e, he, ⟨view, -, hv, hlocks, hws⟩ | ⟨-, hws⟩⟩ := shape_of_deleteNode h.shape
  · rcases job_view_delete h.toSince he hv hlocks hws id with ⟨hall, hsame⟩ | ⟨j₀, -, hcleared⟩
    · -- the job was on the node when the deletion looked for such jobs
      have hlock : (⟨.node nodeId, .update⟩ : Lock Key) ∈ e.locks := by
        rw [hlocks]
        exact List.mem_cons_self ..
      obtain ⟨j₀, hj₀, hold⟩ := assigned_then h.toSince he hlock (hsame ▸ hj) hassign
      have hrow : view.get (.job j₀.id) = some (.job j₀) := by
        rw [hv, Db.get_insert_of_ne (by simp [Row.key]), Db.id_of_job hj₀]
        exact Db.get_job_iff.2 hj₀
      refine hall (.job j₀) (List.mem_filter.2 ⟨Db.mem_of_get hrow, ?_⟩)
        (congrArg Key.job (Db.id_of_job hj₀))
      simp [Schema.refs, Row.refs, hold]
    · rw [hcleared, Option.some.injEq] at hj
      rw [← hj] at hassign
      simp only [Job.cleared, setNull] at hassign
      split at hassign
      · cases hassign
      · rename_i hne
        exact hne hassign
  · rw [hws] at hw
    simp at hw

/-- A job that runs on a node ran there before, or its claim has found the node. -/
theorem node_of_running (h : (platform app rely refusals).Committing db req tx)
    (hq : QueuedUnassigned db) (hdb : Lodged db) {id nodeId : Uuid} {j' : Job}
    (hj' : (tx.view db).job id = some j') (hrun : j'.runningOn nodeId = true) :
    (db.node nodeId).isSome := by
  rcases running_of_committing h hj' hrun with
    ⟨j, hj, hrun⟩ | ⟨bearer, j, now, rfl, hj, hqueued, hw⟩
  · exact hdb id j nodeId hj hrun
  · have hstep := job_step h id
    rw [hj, hj'] at hstep
    cases hstep with
    | same =>
      rw [(runningOn_iff.1 hrun).2] at hqueued
      cases hqueued
    | claimed hreq hn hdrain hmiss hclaim hfound hw =>
      have hnode := Option.some.inj (runningOn_iff.1 hrun).1
      subst hnode
      have hnone := hq id j hj hqueued
      obtain ⟨n', hn'⟩ := node_of_found h.toSince (hfound (by rw [hnone]; simp))
      rw [hn']
      rfl
    | completed hreq => cases hreq
    | cancelled hreq => cases hreq
    | cancelRequested hreq => cases hreq
    | nodeDeleted hreq => cases hreq

theorem lodged_of_committing (h : (fenced app).Committing db req tx) (hq : QueuedUnassigned db)
    (hdb : Lodged db) : Lodged (tx.view db) := by
  intro id j' nodeId hj' hrun
  have hsome := node_of_running h hq hdb hj' hrun
  have hstep := node_step h nodeId
  generalize hn : db.node nodeId = o at hstep hsome
  generalize (tx.view db).node nodeId = o' at hstep
  cases hstep with
  | same => exact hsome
  | registered hreq hid hstatus hgpu hw => rfl
  | seen => rfl
  | drained hreq hread hstatus => rfl
  | undrained hreq hread hstatus => rfl
  | deleted hreq hw =>
    exact absurd (runningOn_iff.1 hrun).1 (unassigned_of_deletion h hreq hw hj')

/-- **The node that a running job has is there**, in every run. -/
theorem lodged_of_reach {T : Terms Row Request ApiError Response} {clock : Time} {s : System}
    (hq : QueuedUnassigned db) (hdb : Lodged db)
    (h : Reach (controlPlane app) T (idle db clock) s) : Lodged s.db := by
  refine (invariant (P := fenced app) (platform_valid app _ _) (fun s l s' hs _ hok => ?_)
    (fun d => QueuedUnassigned d ∧ Lodged d) (fun s l s' i th _ _ hcom hI =>
      ⟨queuedUnassigned_of_committing hcom hI.1, lodged_of_committing hcom hI.1 hI.2⟩)
    (ok_of_no_threads rfl) ⟨hq, hdb⟩ h).2
  refine ⟨fun _ => trivial, fun i th hc hcom j tj hji hj _ => ?_⟩
  rw [db_of_commits hc hs]
  exact keepsOff_of_commits hok.locks hc hji hj hcom

/-! ## Stranded jobs -/

/-- The node has been removed, and the job runs on no node. -/
def Stranded (db : Database) (nodeId id : Uuid) : Prop :=
  db.node nodeId = none ∧ ∃ j, db.job id = some j ∧ j.status = .running ∧ j.assignedNodeId = none

theorem NoOrphans.not_stranded (h : NoOrphans db) (nodeId id : Uuid) :
    ¬ Stranded db nodeId id := by
  rintro ⟨-, j, hj, hrun, hnone⟩
  exact h id j hj hrun hnone

/-- A node is gone once its deletion has committed. -/
theorem node_of_deletion (h : (platform app rely refusals).Committing db req tx) {caller : Caller}
    {nodeId : Uuid} (hreq : req = .deleteNode caller nodeId)
    (hw : .delete (.node nodeId) ∈ tx.writes) : (tx.view db).node nodeId = none := by
  subst hreq
  obtain ⟨a, e, -, ⟨view, -, -, -, hws⟩ | ⟨-, hws⟩⟩ := shape_of_deleteNode h.shape
  · rw [node_view_delete hws nodeId, if_pos rfl]
  · rw [hws] at hw
    simp at hw

/-- The node claims the job; then its owner asks to remove it. -/
def busyRun : List (Label Request) :=
  .spawn (.claimJob (some sampleAgentToken)) :: runs 0 11 ++
    .spawn (.deleteNode sampleCaller 2) :: runs 1 5

theorem running_jobs_keep_their_node_at_busyRun :
    ∃ s, Reach (controlPlane plainApp) NeverStrands (idle queuedDb 0) s ∧
      (s.db.job 3).map Job.status = some .running ∧ NoOrphans s.db := by
  obtain ⟨s, hs, hstatus⟩ := Option.bind_eq_some_iff.1 (show
    (runChecked (controlPlane plainApp) (fun s _ th => decide (¬ Strands s.db th.ses.tx))
      (idle queuedDb 0) busyRun).bind
        (fun s => (s.db.job 3).map Job.status) = some .running by decide +kernel)
  have hdb : NoOrphans queuedDb := by
    intro id j hj hrun
    rw [job_queuedDb hj] at hrun
    cases hrun
  have hr := (Reach.of_runChecked hs).mono fun _ _ _ ht => ht.1
  exact ⟨s, hr, hstatus, running_jobs_keep_their_node plainApp hdb 0 hr⟩

/-- The deletion finds the node free; the node claims the job; the deletion goes on. -/
def strandingRun : List (Label Request) :=
  .spawn (.deleteNode sampleCaller 2) :: runs 0 4 ++
    .spawn (.claimJob (some sampleAgentToken)) :: runs 1 10 ++ runs 0 5

/-- **A running job can lose its node.** -/
theorem running_job_without_node :
    ¬ ∀ s, Reach (controlPlane plainApp) anyTerms (idle queuedDb 0) s → NoOrphans s.db := by
  intro h
  obtain ⟨s, hs, hjob⟩ := Option.bind_eq_some_iff.1 (show
    (runFrom (controlPlane plainApp) (idle queuedDb 0) strandingRun).bind
      (fun s => (s.db.job 3).map fun j => (j.status, j.assignedNodeId)) =
        some (.running, none) by decide +kernel)
  obtain ⟨j, hj, hfields⟩ := Option.map_eq_some_iff.1 hjob
  obtain ⟨hstatus, hnode⟩ := Prod.mk.inj hfields
  exact h s (Reach.of_runFrom hs) 3 j hj hstatus hnode

end GpuNetwork
