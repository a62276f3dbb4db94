import GpuNetwork.Jobs.StateMachine

/-!
# One job for each node

A claim first looks for a job that runs on its node, and takes another one only if there
is none.  The lock it then takes is on the job, so whether the node is still free when it
commits is up to the other claims of that node.

* `OnePerNode` — no two jobs run on one node.
* `Occupied` — the check of the transaction no longer holds when it commits.
-/

namespace GpuNetwork

open ReadCommitted ReadCommitted.Spec

/-- No two jobs run on one node. -/
def OnePerNode (db : Database) : Prop :=
  ∀ id id' j j' nodeId, db.job id = some j → db.job id' = some j' →
    j.runningOn nodeId = true → j'.runningOn nodeId = true → id = id'

/-- The write has a job run on a node for which the query of `get_running_for_node` finds
one already. -/
def occupies (db : Database) : Write Row Key → Bool
  | .update (.job old) (.job new) =>
    new.assignedNodeId.any fun nodeId =>
      decide (new.status = .running) && decide (old.status = .queued) &&
        db.rows.any (Cond.runningForNode nodeId).holds
  | _ => false

def Occupied (db : Database) (tx : Transaction) : Prop := ∃ w ∈ tx.writes, occupies db w = true

instance (db : Database) (tx : Transaction) : Decidable (Occupied db tx) :=
  inferInstanceAs (Decidable (∃ w ∈ tx.writes, occupies db w = true))

/-- What a claim found out about its node holds when it commits. -/
def NeverOccupied : Terms Row Request ApiError Response :=
  OnCommits fun s _ th => ¬ Occupied s.db th.ses.tx

variable {app : App} {rely : Rely} {refusals : Prop} {db : Database} {req : Request}
  {tx : Transaction}

theorem runningOn_iff {nodeId : Uuid} {j : Job} :
    j.runningOn nodeId = true ↔ j.assignedNodeId = some nodeId ∧ j.status = .running := by
  simp [Job.runningOn]

/-- The query of the busy check finds the jobs that run on the node. -/
theorem exists_running_iff {nodeId : Uuid} :
    db.rows.any (Cond.runningForNode nodeId).holds = true ↔
      ∃ id j, db.job id = some j ∧ j.runningOn nodeId = true := by
  rw [List.any_eq_true]
  constructor
  · rintro ⟨r, hr, hh⟩
    cases r with
    | job j => exact ⟨j.id, j, Db.get_job_iff.1 (Db.get_of_mem hr), hh⟩
    | _ => cases hh
  · rintro ⟨id, j, hj, hrun⟩
    exact ⟨.job j, Db.mem_of_get (Db.get_job_iff.2 hj), hrun⟩

theorem occupies_cases {w : Write Row Key} (h : occupies db w = true) :
    ∃ old new nodeId, w = .update (.job old) (.job new) ∧ new.assignedNodeId = some nodeId ∧
      new.status = .running ∧ old.status = .queued ∧
      db.rows.any (Cond.runningForNode nodeId).holds = true := by
  unfold occupies at h
  split at h
  · rename_i old new
    obtain ⟨nodeId, hnode, hrest⟩ := (Option.any_eq_true _ _).1 h
    simp only [Bool.and_eq_true, decide_eq_true_eq] at hrest
    exact ⟨old, new, nodeId, rfl, hnode, hrest.1.1, hrest.1.2, hrest.2⟩
  · cases h

/-- **A job runs on a node because it did, or because it is claimed for it.** -/
theorem running_of_committing (h : (platform app rely refusals).Committing db req tx)
    {id nodeId : Uuid} {j' : Job} (hj' : (tx.view db).job id = some j')
    (hrun : j'.runningOn nodeId = true) :
    (∃ j, db.job id = some j ∧ j.runningOn nodeId = true) ∨
    ∃ bearer j now, req = .claimJob bearer ∧ db.job id = some j ∧ j.status = .queued ∧
      .update (.job j) (.job (j.claimedBy nodeId now)) ∈ tx.writes := by
  have hstep := job_step h id
  rw [hj'] at hstep
  rw [runningOn_iff] at hrun
  generalize hb : db.job id = o at hstep
  cases hstep with
  | same => exact Or.inl ⟨j', rfl, runningOn_iff.2 hrun⟩
  | submitted hreq hu hid hj => rw [hj] at hrun; cases hrun.2
  | claimed hreq hn hdrain hmiss hclaim hfound hw =>
    have hnode := hrun.1
    simp only [Job.claimedBy, Option.some.injEq] at hnode
    subst hnode
    exact Or.inr ⟨_, _, _, hreq, rfl, status_of_claimable hclaim, hw⟩
  | completed hreq hn hread hassign hallowed hw =>
    rename_i bearer p n old cur now
    have hterm := isTerminal_completionTarget old p.exitCode
    rw [status_merge_terminated (ne_of_allowed hallowed)] at hrun
    rw [hrun.2] at hterm
    cases hterm
  | cancelled hreq hread hstatus hw =>
    rw [status_merge_terminated (by rw [hstatus]; simp)] at hrun
    cases hrun.2
  | cancelRequested hreq hread hstatus hnone hw =>
    refine Or.inl ⟨_, rfl, runningOn_iff.2 ?_⟩
    simpa [Job.merge, Job.cancelRequested] using hrun
  | nodeDeleted hreq hmiss hw =>
    refine Or.inl ⟨_, rfl, runningOn_iff.2 ⟨?_, hrun.2⟩⟩
    have hnode := hrun.1
    simp only [Job.cleared, setNull] at hnode
    split at hnode
    · cases hnode
    · exact hnode

/-- A claim writes one job. -/
theorem eq_of_claims {bearer : Option Str} (h : Shape app (.claimJob bearer) tx)
    {old new old' new' : Job} (hw : .update (.job old) (.job new) ∈ tx.writes)
    (hw' : .update (.job old') (.job new') ∈ tx.writes) : old = old' := by
  obtain ⟨n, j, now, a, -, -, -, -, -, hws⟩ := shape_of_claimJob h
  rw [hws] at hw hw'
  simp only [List.mem_cons, Write.update.injEq, Row.job.injEq, reduceCtorEq, List.not_mem_nil,
    or_false] at hw hw'
  rw [hw.1, hw'.1]

/-- Only a claim has a queued job run. -/
theorem claims_of_started (h : (platform app rely refusals).Committing db req tx) {old new : Job}
    (hw : .update (.job old) (.job new) ∈ tx.writes) (hq : old.status = .queued)
    (hrun : new.status = .running) : ∃ bearer, req = .claimJob bearer := by
  rcases (job_of_update h hw).2 with hclaim | hterm | hsame
  · exact hclaim
  · rw [hrun] at hterm; cases hterm
  · rw [hrun, hq] at hsame; cases hsame

/-- A claim that finds its node free when it commits leaves one job on each node. -/
theorem onePerNode_of_committing (h : (platform app rely refusals).Committing db req tx)
    (hfree : ¬ Occupied db tx) (hdb : OnePerNode db) : OnePerNode (tx.view db) := by
  have hnew : ∀ {id nodeId : Uuid} {j j' : Job} {now : Time}, j.status = .queued →
      .update (.job j) (.job (j.claimedBy nodeId now)) ∈ tx.writes → db.job id = some j' →
      j'.runningOn nodeId = false := by
    intro id nodeId j j' now hq hw hj'
    cases hrun : j'.runningOn nodeId with
    | false => rfl
    | true =>
      have hany : db.rows.any (Cond.runningForNode nodeId).holds = true :=
        exists_running_iff.2 ⟨id, j', hj', hrun⟩
      exact absurd ⟨_, hw, by simp [occupies, Job.claimedBy, hq, hany]⟩ hfree
  intro id id' j j' nodeId hj hj' hrun hrun'
  rcases running_of_committing h hj hrun with ⟨j₀, hj₀, hr₀⟩ | ⟨b, j₀, now, hreq, hj₀, hq, hw⟩
  · rcases running_of_committing h hj' hrun' with ⟨j₁, hj₁, hr₁⟩ | ⟨b', j₁, now', -, -, hq', hw'⟩
    · exact hdb id id' j₀ j₁ nodeId hj₀ hj₁ hr₀ hr₁
    · rw [hnew hq' hw' hj₀] at hr₀
      cases hr₀
  · rcases running_of_committing h hj' hrun' with ⟨j₁, hj₁, hr₁⟩ | ⟨b', j₁, now', -, hj₁, hq', hw'⟩
    · rw [hnew hq hw hj₁] at hr₁
      cases hr₁
    · subst hreq
      have he := eq_of_claims h.shape hw hw'
      rw [← Db.id_of_job hj₀, ← Db.id_of_job hj₁, he]

/-- A claim that finds its node taken when it commits leaves two jobs on it. -/
theorem not_onePerNode_of_occupied (h : (platform app rely refusals).Committing db req tx)
    (hocc : Occupied db tx) : ¬ OnePerNode (tx.view db) := by
  intro hone
  obtain ⟨w, hw, hocc⟩ := hocc
  obtain ⟨old, new, nodeId, rfl, hnode, hrun, hq, hany⟩ := occupies_cases hocc
  obtain ⟨id, j, hj, hjrun⟩ := exists_running_iff.1 hany
  -- the write is that of a claim, on a job that is still in the queue
  obtain ⟨bearer, rfl⟩ := claims_of_started h hw hq hrun
  obtain ⟨n, j', now, a, -, -, -, hlock, -, hws⟩ := shape_of_claimJob h.shape
  have hmem : .update (.job j') (.job (j'.claimedBy n.id now)) ∈ tx.writes := by
    rw [hws]; exact List.mem_cons_self ..
  have he := eq_of_claims h.shape hw hmem
  subst he
  have hnew : new = old.claimedBy n.id now := by
    rw [hws] at hw
    simpa using hw
  have hcur := Db.get_job_iff.1 (h.get_of_locked hlock).1
  have hclaimed : (tx.view db).job old.id = some new := by
    rw [(job_of_update h hw).1, hcur, hnew]
    simp [Job.merge, Job.claimedBy]
  -- the job that runs there is another one, and goes on running
  have hne : id ≠ old.id := by
    rintro rfl
    rw [hj, Option.some.injEq] at hcur
    rw [runningOn_iff, hcur, hq] at hjrun
    cases hjrun.2
  have hstays : (tx.view db).job id = some j := by
    rw [job_view_update hws (by simp [Write.target, Row.key]) id, if_neg (Ne.symm hne), hj]
  exact hne (hone id old.id j new nodeId hstays hclaimed hjrun (runningOn_iff.2 ⟨hnode, hrun⟩))

/-- **One running job for each node.**  Along every run from a state in which no node has
two, no commit gives a node a second one, exactly if each claim's check of its node still
holds when it commits. -/
theorem one_running_per_node_iff (app : App) {db : Database} (hdb : OnePerNode db) (clock : Time)
    (ls : List (Label Request)) :
    Along (controlPlane app) (fun _ _ s' => OnePerNode s'.db) (idle db clock) ls ↔
      Along (controlPlane app) NeverOccupied (idle db clock) ls := by
  refine along_congr (fun s => OnePerNode s.db) hdb (fun _ _ _ _ _ ht => ht)
    (fun s l s' hr hone hs => ?_) ls
  have hok : (onward app).Ok s := onward_ok rfl hr
  constructor
  · intro hone' i th hc hocc
    rw [db_of_commits hc hs] at hone'
    exact not_onePerNode_of_occupied (hok.committing hc) hocc hone'
  · intro hnever
    rcases hok.db_cases hs with hdb | ⟨i, th, th', hc, hcom, hdb, -⟩
    · rw [hdb]; exact hone
    · rw [hdb]; exact onePerNode_of_committing hcom (hnever i th hc) hone

/-- Two queued jobs. -/
def twoJobsDb : Database := queuedDb.insert (.job { sampleJob with id := 4 })

theorem onePerNode_twoJobsDb : OnePerNode twoJobsDb := by
  have hqueued : ∀ id j, twoJobsDb.job id = some j → j.status = .queued := by
    intro id j hj
    have hmem := Db.mem_of_get (Db.get_job_iff.2 hj)
    have hall : twoJobsDb.rows =
        [.user sampleUser, .node sampleNode, .job sampleJob, .job { sampleJob with id := 4 }] := by
      decide +kernel
    rw [hall] at hmem
    simp only [List.mem_cons, reduceCtorEq, Row.job.injEq, List.not_mem_nil, or_false,
      false_or] at hmem
    rcases hmem with rfl | rfl
    · rfl
    · rfl
  intro id id' j j' nodeId hj _ hrun _
  rw [runningOn_iff, hqueued id j hj] at hrun
  cases hrun.2

/-- Two claims of the node, one after the other. -/
def twoClaimsRun : List (Label Request) :=
  .spawn (.claimJob (some sampleAgentToken)) :: runs 0 11 ++
    .spawn (.claimJob (some sampleAgentToken)) :: runs 1 3

theorem one_running_per_node_along_twoClaimsRun :
    Along (controlPlane plainApp) (fun _ _ s' => OnePerNode s'.db) (idle twoJobsDb 0)
      twoClaimsRun := by
  have hrun : (runChecked (controlPlane plainApp) (fun s _ th => decide (¬ Occupied s.db th.ses.tx))
      (idle twoJobsDb 0) twoClaimsRun).isSome = true := by decide +kernel
  obtain ⟨s, hs⟩ := Option.isSome_iff_exists.1 hrun
  exact (one_running_per_node_iff plainApp onePerNode_twoJobsDb 0 twoClaimsRun).2
    (along_of_runChecked hs)

/-- Both claims find the node free; then one after the other takes a job. -/
def doubleClaimRun : List (Label Request) :=
  .spawn (.claimJob (some sampleAgentToken)) :: runs 0 2 ++
    .spawn (.claimJob (some sampleAgentToken)) :: runs 1 10 ++ runs 0 7

/-- **Two jobs can run on one node.** -/
theorem two_jobs_on_one_node :
    ¬ Along (controlPlane plainApp) (fun _ _ s' => OnePerNode s'.db) (idle twoJobsDb 0)
      (doubleClaimRun ++ [.run 0 0]) := by
  intro h
  have hrun : (runFrom (controlPlane plainApp) (idle twoJobsDb 0)
      doubleClaimRun).isSome = true := by
    decide +kernel
  obtain ⟨s₁, h₁⟩ := Option.isSome_iff_exists.1 hrun
  obtain ⟨s₂, h₂, hjobs⟩ := Option.bind_eq_some_iff.1 (show
    (runFrom (controlPlane plainApp) (idle twoJobsDb 0) (doubleClaimRun ++ [.run 0 0])).bind
      (fun s => (s.db.job 3).bind fun a => (s.db.job 4).map fun b =>
        (a.runningOn 2, b.runningOn 2)) = some (true, true) by decide +kernel)
  obtain ⟨a, ha, hjobs⟩ := Option.bind_eq_some_iff.1 hjobs
  obtain ⟨b, hb, hboth⟩ := Option.map_eq_some_iff.1 hjobs
  obtain ⟨hra, hrb⟩ := Prod.mk.inj hboth
  exact absurd (h.last h₁ h₂ 3 4 a b 2 ha hb hra hrb) (by decide)

end GpuNetwork
