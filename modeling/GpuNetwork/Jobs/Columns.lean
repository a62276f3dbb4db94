import GpuNetwork.Commits.OneAtATime
import GpuNetwork.Jobs.Cancellation

/-!
# The columns of a job

Which columns of a job are set in which status, and where a job that runs has been put,
while requests are answered one at a time.  The foreign keys of the jobs are
`ON DELETE SET NULL`, so this is about what becomes of the nodes as well.

* `Job.Fits` — the columns of one job; `JobsFit` — of all jobs of a store.
* `jobsFit_of_committing` — every commit keeps it.
-/

namespace GpuNetwork

open ReadCommitted ReadCommitted.Spec

/-- The job has been put where it may run: the node is there, is large enough, and is the
one the job asked for, if it asked for one. -/
def Job.Placed (db : Database) (j : Job) : Prop :=
  ∃ n, j.assignedNodeId = some n.id ∧ db.node n.id = some n ∧ j.gpuCount ≤ n.gpuCount ∧
    (j.preferredNodeId = none ∨ j.preferredNodeId = some n.id)

/-- The columns of a job in each status. -/
def Job.Fits (db : Database) (j : Job) : Prop :=
  match j.status with
  | .queued => j.startedAt = none ∧ j.completedAt = none ∧ j.exitCode = none ∧
      j.errorMessage = none ∧ j.assignedNodeId = none ∧ j.cancelRequestedAt = none
  | .running => j.startedAt.isSome ∧ j.completedAt = none ∧ j.exitCode = none ∧ j.Placed db
  | .completed => j.startedAt.isSome ∧ j.completedAt.isSome ∧ j.exitCode = some 0 ∧
      j.cancelRequestedAt = none
  | .failed => j.startedAt.isSome ∧ j.completedAt.isSome ∧
      (∃ code, j.exitCode = some code ∧ code ≠ 0) ∧ j.cancelRequestedAt = none
  | .cancelled => j.completedAt.isSome ∧
      ((j.startedAt = none ∧ j.assignedNodeId = none ∧ j.exitCode = none ∧
          j.cancelRequestedAt = none) ∨
        (j.startedAt.isSome ∧ j.cancelRequestedAt.isSome ∧ j.exitCode.isSome))

/-- Every job fits its status. -/
def JobsFit (db : Database) : Prop := ∀ id j, db.job id = some j → j.Fits db

variable {app : App} {db db' : Database} {req : Request} {tx : Transaction}

/-- Only the columns of a job that runs depend on the nodes. -/
theorem Job.Fits.of_placed {j : Job} (h : j.Fits db)
    (hp : j.status = .running → j.Placed db → j.Placed db') : j.Fits db' := by
  unfold Job.Fits at h ⊢
  cases hs : j.status with
  | running =>
    rw [hs] at h
    exact ⟨h.1, h.2.1, h.2.2.1, hp hs h.2.2.2⟩
  | _ => rw [hs] at h; exact h

/-- A job that runs keeps its place, since its node is not deleted. -/
theorem placed_of_committing (h : (serially app).Committing db req tx) {id : Uuid} {j : Job}
    (hj : db.job id = some j) (hrun : j.status = .running) (hp : j.Placed db) :
    j.Placed (tx.view db) := by
  obtain ⟨n, ha, hn, hgpu, hpref⟩ := hp
  have hstep := node_step h n.id
  rw [hn] at hstep
  generalize hn' : (tx.view db).node n.id = o at hstep
  cases hstep with
  | same => exact ⟨n, ha, hn', hgpu, hpref⟩
  | seen =>
    rename_i lastSeenAt
    exact ⟨{ n with lastSeenAt }, ha, hn', hgpu, hpref⟩
  | drained hd hread hstatus => exact ⟨{ n with status := .draining }, ha, hn', hgpu, hpref⟩
  | undrained hreq hread hstatus => exact ⟨{ n with status := .online }, ha, hn', hgpu, hpref⟩
  | deleted hreq hw =>
    exact absurd ha (idle_of_missed h.toSince (missed_of_removed h hn hn') hj hrun)

/-- An agent finishes a job that runs. -/
theorem running_of_allowed {j : Job} (hfit : j.Fits db) {nodeId : Uuid}
    (ha : j.assignedNodeId = some nodeId) {exitCode : Int}
    (hallowed : (j.status, completionTarget j exitCode) ∈ allowedTransitions) :
    j.status = .running := by
  cases hs : j.status with
  | running => rfl
  | queued =>
    -- a job in the queue has no node
    unfold Job.Fits at hfit
    rw [hs] at hfit
    rw [hfit.2.2.2.2.1] at ha
    cases ha
  | completed => rw [hs] at hallowed; simp [allowedTransitions] at hallowed
  | failed => rw [hs] at hallowed; simp [allowedTransitions] at hallowed
  | cancelled => rw [hs] at hallowed; simp [allowedTransitions] at hallowed

/-- A job that has just been finished fits its status. -/
theorem fits_of_terminated {j : Job} (hfit : j.Fits db) (hrun : j.status = .running)
    (exitCode : Int) (message : Option Str) (now : Time) :
    (j.terminated (completionTarget j exitCode) (some exitCode) message now).Fits db' := by
  unfold Job.Fits at hfit
  rw [hrun] at hfit
  obtain ⟨hstarted, -, -, -⟩ := hfit
  unfold completionTarget
  by_cases hc : j.cancelRequestedAt.isSome
  · rw [if_pos hc]
    exact ⟨rfl, Or.inr ⟨hstarted, hc, rfl⟩⟩
  · have hnone : j.cancelRequestedAt = none := by simpa using hc
    rw [if_neg hc]
    by_cases hz : exitCode = 0
    · rw [if_pos hz, hz]
      exact ⟨hstarted, rfl, rfl, hnone⟩
    · rw [if_neg hz]
      exact ⟨hstarted, rfl, ⟨exitCode, rfl, hz⟩, hnone⟩

/-- **Every commit keeps the columns of the jobs in shape.** -/
theorem jobsFit_of_committing (h : (serially app).Committing db req tx) (hdb : JobsFit db) :
    JobsFit (tx.view db) := by
  intro id j' hj'
  have hstep := job_step h id
  rw [hj'] at hstep
  generalize hb : db.job id = o at hstep
  cases hstep with
  | same => exact (hdb id j' hb).of_placed fun hrun => placed_of_committing h hb hrun
  | submitted hreq hu hid hj => rw [hj]; exact ⟨rfl, rfl, rfl, rfl, rfl, rfl⟩
  | claimed hreq hn hdrain hmiss hclaim hfound hw =>
    rename_i bearer n j now
    have hfit := hdb id j hb
    unfold Job.Fits at hfit
    rw [status_of_claimable hclaim] at hfit
    obtain ⟨-, hcompleted, hexit, -, -, -⟩ := hfit
    -- the node is in the store, and a claim leaves it there
    have hnode : (tx.view db).node n.id = some n := by
      rw [← node_of_asNode h.toSince hn]
      obtain ⟨n', j₀, now', a, -, -, -, -, -, hw'⟩ := shape_of_claimJob (hreq ▸ h.shape)
      exact Db.node_congr (Tx.view_get (by rw [hw']; simp [Write.target, Row.key]) db)
    simp only [Job.claimable, Bool.and_eq_true, Bool.or_eq_true, decide_eq_true_eq] at hclaim
    exact ⟨rfl, hcompleted, hexit, n, rfl, hnode, hclaim.1.2, hclaim.2⟩
  | completed hreq hn hread hassign hallowed hw =>
    rename_i bearer p n old cur now
    have hid := id_of_read_job hread
    subst hid
    have hcur := job_of_read h.toSince hread
    rw [hb, Option.some.injEq] at hcur
    subst hcur
    rw [merge_terminated]
    have hfit := hdb _ _ hb
    exact fits_of_terminated hfit (running_of_allowed hfit hassign hallowed) _ _ _
  | cancelled hc hread hstatus hw =>
    rename_i event old cur now
    have hid := id_of_read_job hread
    subst hid
    have hcur := job_of_read h.toSince hread
    rw [hb, Option.some.injEq] at hcur
    subst hcur
    rw [merge_terminated]
    have hfit := hdb _ _ hb
    unfold Job.Fits at hfit
    rw [hstatus] at hfit
    obtain ⟨hstarted, -, -, -, hassigned, hcancel⟩ := hfit
    exact ⟨rfl, Or.inl ⟨hstarted, hassigned, rfl, hcancel⟩⟩
  | cancelRequested hc hread hstatus hnone hw =>
    rename_i event old cur now
    have hid := id_of_read_job hread
    subst hid
    have hcur := job_of_read h.toSince hread
    rw [hb, Option.some.injEq] at hcur
    subst hcur
    rw [merge_cancelRequested]
    have hfit := (hdb _ _ hb).of_placed fun hrun => placed_of_committing h hb hrun
    unfold Job.Fits at hfit ⊢
    rw [hstatus] at hfit
    rw [show (cur.cancelRequested now).status = .running from hstatus]
    exact hfit
  | nodeDeleted hreq hmiss hw =>
    rename_i caller n j
    have hfit := (hdb id j hb).of_placed fun hrun => placed_of_committing h hb hrun
    unfold Job.Fits at hfit ⊢
    rw [show (j.cleared n.id).status = j.status from rfl]
    cases hs : j.status with
    | queued =>
      rw [hs] at hfit
      obtain ⟨hstarted, hcompleted, hexit, hmsg, hassigned, hcancel⟩ := hfit
      exact ⟨hstarted, hcompleted, hexit, hmsg, by simp [Job.cleared, setNull, hassigned],
        hcancel⟩
    | running =>
      rw [hs] at hfit
      obtain ⟨hstarted, hcompleted, hexit, m, ha, hm, hgpu, hpref⟩ := hfit
      have hother := idle_of_missed h.toSince hmiss hb hs
      refine ⟨hstarted, hcompleted, hexit, m, ?_, hm, hgpu, ?_⟩
      · simp only [Job.cleared, setNull]
        rw [if_neg hother, ha]
      · rcases hpref with hpref | hpref
        · exact Or.inl (by simp [Job.cleared, setNull, hpref])
        · refine Or.inr ?_
          simp only [Job.cleared, setNull]
          rw [hpref, ← ha, if_neg hother]
    | completed => rw [hs] at hfit; exact hfit
    | failed => rw [hs] at hfit; exact hfit
    | cancelled =>
      rw [hs] at hfit
      refine ⟨hfit.1, ?_⟩
      rcases hfit.2 with ⟨hstarted, hassigned, hrest⟩ | hran
      · exact Or.inl ⟨hstarted, by simp [Job.cleared, setNull, hassigned], hrest⟩
      · exact Or.inr hran

/-- **The job table is in shape** in every state of every run of one request at a time. -/
theorem jobs_fit_their_status (app : App) {db : Database} (hdb : JobsFit db) (clock : Time)
    {s : System} (h : Reach (controlPlane app) OneAtATime (idle db clock) s) : JobsFit s.db :=
  serial_invariant (P := serially app) (platform_valid app _ _) trivial (fun _ _ _ ht => ht)
    JobsFit (fun _ _ _ _ _ _ _ hcom hI => jobsFit_of_committing hcom hI) rfl hdb h

theorem jobs_fit_their_status_at_cancelledRun :
    ∃ s, Reach (controlPlane plainApp) OneAtATime (idle queuedDb 0) s ∧
      (s.db.job 3).map Job.status = some .cancelled ∧ JobsFit s.db := by
  obtain ⟨s, hs, hstatus⟩ := Option.bind_eq_some_iff.1 (show
    (runWhile (controlPlane plainApp) Sys.idles (idle queuedDb 0) cancelledRun).bind
      (fun s => (s.db.job 3).map Job.status) = some .cancelled by decide +kernel)
  have hdb : JobsFit queuedDb := by
    intro id j hj
    rw [job_queuedDb hj]
    exact ⟨rfl, rfl, rfl, rfl, rfl, rfl⟩
  have hr := Reach.of_idles hs
  exact ⟨s, hr, hstatus, jobs_fit_their_status plainApp hdb 0 hr⟩

end GpuNetwork
