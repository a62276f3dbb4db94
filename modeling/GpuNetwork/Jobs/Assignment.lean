import GpuNetwork.Jobs.StateMachine

/-!
# Handing jobs out

A claim locks the row it takes and checks it again on its newest version, and nothing
puts a job back into the queue.  So a job leaves the queue once, one claim is answered
with it, and its node stays the same for as long as the node is there.

* `ClaimsJob` — a transaction that hands out a job.
* `QueuedUnassigned` — a job in the queue has no node yet.
* `claims_distinct` — no two claims take the same job.
-/

namespace GpuNetwork

open ReadCommitted ReadCommitted.Spec

variable {app : App} {rely : Rely} {refusals : Prop} {db : Database} {req : Request}
  {tx : Transaction}

/-- The transaction hands out the job `id`. -/
def ClaimsJob (req : Request) (tx : Transaction) (id : Uuid) : Prop :=
  ∃ (bearer : Option Str) (j : Job) (nodeId : Uuid) (now : Time) (rest : List (Write Row Key)),
    req = .claimJob bearer ∧
    tx.writes = .update (.job j) (.job (j.claimedBy nodeId now)) :: rest ∧ j.id = id

/-- **A job is handed out of the queue.** -/
theorem job_of_claims (h : (platform app rely refusals).Committing db req tx) {id : Uuid}
    (hc : ClaimsJob req tx id) :
    ∃ j nodeId now, db.job id = some j ∧ j.status = .queued ∧
      (tx.view db).job id = some (j.claimedBy nodeId now) := by
  obtain ⟨bearer, j, nodeId, now, rest, rfl, hw, rfl⟩ := hc
  have hview := (job_of_update h (by rw [hw]; exact List.mem_cons_self ..)).1
  obtain ⟨n, j', now', a, hn, hdrain, hmiss, hlock, hfound, hw'⟩ := shape_of_claimJob h.shape
  rw [hw] at hw'
  cases hw'
  obtain ⟨hget, hclaim⟩ := h.get_of_locked hlock
  have hj := Db.get_job_iff.1 hget
  have hmerge : ∀ nodeId, j.merge (j.claimedBy nodeId now) j = j.claimedBy nodeId now := by
    intro nodeId
    simp [Job.merge, Job.claimedBy]
  rw [hj, Option.map_some, hmerge] at hview
  exact ⟨j, _, _, hj, status_of_claimable hclaim, hview⟩

/-! ## Nodes of jobs -/

/-- A job in the queue has no node. -/
def QueuedUnassigned (db : Database) : Prop :=
  ∀ id j, db.job id = some j → j.status = .queued → j.assignedNodeId = none

/-- A commit leaves a job in the queue without a node. -/
theorem unassigned_of_committing (h : (platform app rely refusals).Committing db req tx)
    {id : Uuid} (hdb : ∀ j, db.job id = some j → j.status = .queued → j.assignedNodeId = none)
    {j' : Job} (hj' : (tx.view db).job id = some j') (hq : j'.status = .queued) :
    j'.assignedNodeId = none := by
  have hstep := job_step h id
  rw [hj'] at hstep
  generalize hb : db.job id = o at hstep
  cases hstep with
  | same => exact hdb j' hb hq
  | submitted hreq hu hid hj => rw [hj]
  | claimed hreq hn hdrain hmiss hclaim hfound hw => cases hq
  | completed hreq hn hread hassign hallowed hw =>
    rw [status_merge_terminated (ne_of_allowed hallowed)] at hq
    exact absurd hq (completionTarget_ne_queued _ _)
  | cancelled hreq hread hstatus hw =>
    rw [status_merge_terminated (by rw [hstatus]; simp)] at hq
    cases hq
  | cancelRequested hreq hread hstatus hnone hw =>
    have hj := hdb _ hb (by simpa [Job.merge, Job.cancelRequested] using hq)
    simpa [Job.merge, Job.cancelRequested] using hj
  | nodeDeleted hreq hmiss hw =>
    have hj := hdb _ hb hq
    simp [Job.cleared, hj, setNull]

theorem queuedUnassigned_of_committing
    (h : (platform app rely refusals).Committing db req tx) (hdb : QueuedUnassigned db) :
    QueuedUnassigned (tx.view db) :=
  fun id _ hj' hq => unassigned_of_committing h (hdb id) hj' hq

/-- In the step `l` a request deletes the node. -/
def DeletesNode (nodeId : Uuid) (s : System) (l : Label Request) : Prop :=
  ∃ (i : Nat) (th : Pending) (caller : Caller), Commits s l i th ∧
    th.req = .deleteNode caller nodeId ∧ .delete (.node nodeId) ∈ th.ses.tx.writes

/-- A commit keeps the node of a job, or deletes it. -/
theorem assigned_of_committing (h : (platform app rely refusals).Committing db req tx)
    (hdb : QueuedUnassigned db) {id : Uuid} {j : Job} {nodeId : Uuid} (hj : db.job id = some j)
    (ha : j.assignedNodeId = some nodeId) :
    ∃ j', (tx.view db).job id = some j' ∧ (j'.assignedNodeId = some nodeId ∨
      (j'.assignedNodeId = none ∧ (∃ caller, req = .deleteNode caller nodeId) ∧
        .delete (.node nodeId) ∈ tx.writes)) := by
  have hstep := job_step h id
  rw [hj] at hstep
  generalize (tx.view db).job id = o at hstep
  cases hstep with
  | same => exact ⟨j, rfl, Or.inl ha⟩
  | claimed hreq hn hdrain hmiss hclaim hfound hw =>
    have hnone := hdb id j hj (status_of_claimable hclaim)
    rw [ha] at hnone
    cases hnone
  | completed hreq hn hread hassign hallowed hw =>
    exact ⟨_, rfl, Or.inl (by simpa [Job.merge, Job.terminated] using ha)⟩
  | cancelled hreq hread hstatus hw =>
    exact ⟨_, rfl, Or.inl (by simpa [Job.merge, Job.terminated] using ha)⟩
  | cancelRequested hreq hread hstatus hnone hw =>
    exact ⟨_, rfl, Or.inl (by simpa [Job.merge, Job.cancelRequested] using ha)⟩
  | nodeDeleted hreq hmiss hw =>
    rename_i caller n
    refine ⟨_, rfl, ?_⟩
    by_cases hn : n.id = nodeId
    · subst hn
      exact Or.inr ⟨by simp [Job.cleared, setNull, ha], ⟨caller, hreq⟩, hw⟩
    · exact Or.inl (by simp [Job.cleared, setNull, ha, Ne.symm hn])

/-! ## Runs -/

theorem Onward.refl (a : Database) : Onward a a := fun _ j hj => ⟨j, hj, fun hq => hq⟩

theorem Onward.trans {a b c : Database} (h : Onward a b) (h' : Onward b c) : Onward a c := by
  intro id j hj
  obtain ⟨j₁, hj₁, hq₁⟩ := h id j hj
  obtain ⟨j₂, hj₂, hq₂⟩ := h' id j₁ hj₁
  exact ⟨j₂, hj₂, fun hq => hq₁ (hq₂ hq)⟩

/-- Over any number of steps jobs only move on. -/
theorem onward_of_reach {T : Terms Row Request ApiError Response} {s₀ s s' : System}
    (h₀ : s₀.threads = []) (h : Reach (controlPlane app) T s₀ s)
    (h' : Reach (controlPlane app) T s s') : Onward s.db s'.db := by
  induction h' with
  | refl => exact Onward.refl _
  | tail hr hs ih =>
    obtain ⟨l, hst, -⟩ := hs
    refine ih.trans ?_
    rcases (onward_ok h₀ (h.trans hr)).db_cases hst with hdb | ⟨i, th, th', -, hcom, hdb, -⟩
    · rw [hdb]; exact Onward.refl _
    · rw [hdb]; exact onward_of_committing hcom

/-- A claim that has been answered with a job has handed it out. -/
theorem claims_of_answer {s : System} (hok : (onward app).Ok s) {i : Nat} {th : Pending}
    (hi : s.threads[i]? = some th) {bearer : Option Str} (hreq : th.req = .claimJob bearer)
    {id : Uuid} {image : Str} {command : List Str} {limit : Int}
    (hret : th.prog = .ret (.assignment id image command limit)) :
    ∃ tx ∈ th.ses.past, ClaimsJob th.req tx id := by
  have hsafe := hok.safe i th hi
  rw [hret, hreq] at hsafe
  obtain ⟨tx, htx, j, nodeId, now, rest, hw, hid⟩ := hsafe
  rw [htx]
  exact ⟨tx, List.mem_singleton_self tx, bearer, j, nodeId, now, rest, hreq, hw, hid⟩

/-- The job `id` leaves the queue for a node between the two stores. -/
def HandsOut (id : Uuid) (a b : Database) : Prop :=
  ∃ j j', a.job id = some j ∧ b.job id = some j' ∧ j.status = .queued ∧ j'.status = .running

/-- What a claim's transaction has left of the job it took, and that no two claims take the
same one. -/
theorem claims_chronicle (app : App) :
    (onward app).Chronicle (controlPlane app) anyTerms QueuedUnassigned
      (fun req tx d => ∀ id, ClaimsJob req tx id →
        ∃ j, d.job id = some j ∧ j.status ≠ .queued) where
  kept := fun s l s' hs _ _ => kept_of_commits (P := onward app) trivial
    (fun db req tx hcom _ _ => onward_of_committing hcom) hs
  inv := fun s l s' i th _ _ hcom hI => queuedUnassigned_of_committing hcom hI
  new := fun s l s' i th _ _ hcom _ id hc => by
    obtain ⟨j, nodeId, now, -, -, hview⟩ := job_of_claims hcom hc
    exact ⟨_, hview, by simp [Job.claimedBy]⟩
  old := fun s l s' i th _ _ hcom _ req tx hG id hc => by
    obtain ⟨j, hj, hne⟩ := hG id hc
    obtain ⟨j', hj', hq⟩ := onward_of_committing hcom id j hj
    exact ⟨j', hj', fun hq' => hne (hq hq')⟩

/-- **No two claims take the same job**, whatever requests interleave. -/
theorem claims_distinct (app : App) {db : Database} (hdb : QueuedUnassigned db) {clock : Time}
    {s : System} (h : Reach (controlPlane app) anyTerms (idle db clock) s) :
    ∀ (i j : Nat) (ti tj : Pending), i ≠ j → s.threads[i]? = some ti → s.threads[j]? = some tj →
      ∀ tx ∈ ti.ses.past, ∀ tx' ∈ tj.ses.past, ∀ id, ClaimsJob ti.req tx id →
        ¬ ClaimsJob tj.req tx' id :=
  history_pairs (platform_valid app _ _) (claims_chronicle app)
    (fun r tx r' tx' => ∀ id, ClaimsJob r tx id → ¬ ClaimsJob r' tx' id)
    (fun r tx r' tx' hD id hc hc' => hD id hc' hc)
    (fun s l s' i th _ _ hcom _ req tx hG id hc hc' => by
      obtain ⟨j, nodeId, now, hj, hq, -⟩ := job_of_claims hcom hc
      obtain ⟨j', hj', hne⟩ := hG id hc'
      rw [hj, Option.some.injEq] at hj'
      exact hne (hj' ▸ hq))
    rfl hdb h

/-- What holds of the jobs that are handed out, in a state and from it on. -/
structure HandedOutOnce (app : App) (s : System) : Prop where
  /-- A job that leaves the queue in the next step does not leave it again. -/
  leavesOnce : ∀ (l m : Label Request) (s₁ s₂ s₃ : System) (id : Uuid),
    step (controlPlane app) s l = some s₁ → HandsOut id s.db s₁.db →
    Reach (controlPlane app) anyTerms s₁ s₂ → step (controlPlane app) s₂ m = some s₃ →
    ¬ HandsOut id s₂.db s₃.db
  /-- No two claims have been answered with the same job. -/
  answersDiffer : ∀ (i j : Nat) (ti tj : Pending) (bi bj : Option Str) (id id' : Uuid)
    (image image' : Str) (command command' : List Str) (limit limit' : Int), i ≠ j →
    s.threads[i]? = some ti → s.threads[j]? = some tj → ti.req = .claimJob bi →
    tj.req = .claimJob bj → ti.prog = .ret (.assignment id image command limit) →
    tj.prog = .ret (.assignment id' image' command' limit') → id ≠ id'
  /-- In the next step a job keeps its node, unless a request deletes it. -/
  nodeStays : ∀ (l : Label Request) (s' : System) (id : Uuid) (j : Job) (nodeId : Uuid),
    step (controlPlane app) s l = some s' → s.db.job id = some j →
    j.assignedNodeId = some nodeId → ∃ j', s'.db.job id = some j' ∧
      (j'.assignedNodeId = some nodeId ∨ (j'.assignedNodeId = none ∧ DeletesNode nodeId s l))

/-- **Jobs are handed out once**, whatever requests interleave. -/
theorem no_job_handed_out_twice (app : App) {db : Database} (hdb : QueuedUnassigned db)
    (clock : Time) {s : System} (h : Reach (controlPlane app) anyTerms (idle db clock) s) :
    HandedOutOnce app s := by
  obtain ⟨hok, hqueued, hpast⟩ := history (platform_valid app _ _) (claims_chronicle app) rfl hdb h
  refine ⟨?_, ?_, ?_⟩
  · rintro l m s₁ s₂ s₃ id hl ⟨j, j₁, -, hj₁, -, hrun⟩ hr hm ⟨j₂, j₃, hj₂, -, hq, -⟩
    have hmoves := onward_of_reach rfl (h.tail hl trivial) hr
    obtain ⟨j', hj', hback⟩ := hmoves id j₁ hj₁
    rw [hj₂, Option.some.injEq] at hj'
    rw [hback (hj' ▸ hq)] at hrun
    cases hrun
  · intro i j ti tj bi bj id id' image image' command command' limit limit' hij hi hj hri hrj hai
      haj he
    subst he
    obtain ⟨tx, htx, hc⟩ := claims_of_answer hok hi hri hai
    obtain ⟨tx', htx', hc'⟩ := claims_of_answer hok hj hrj haj
    exact claims_distinct app hdb h i j ti tj hij hi hj tx htx tx' htx' id hc hc'
  · intro l s' id j nodeId hl hj ha
    rcases hok.db_cases hl with hdb' | ⟨i, th, th', hc, hcom, hdb', -⟩
    · rw [hdb']; exact ⟨j, hj, Or.inl ha⟩
    · rw [hdb']
      obtain ⟨j', hj', hcases⟩ := assigned_of_committing hcom hqueued hj ha
      refine ⟨j', hj', ?_⟩
      rcases hcases with hsame | ⟨hnone, ⟨caller, hreq⟩, hw⟩
      · exact Or.inl hsame
      · exact Or.inr ⟨hnone, i, th, caller, hc, hreq, hw⟩

/-- The node asks for a job twice, and the second time there is none. -/
def claimedRun : List (Label Request) :=
  .spawn (.claimJob (some sampleAgentToken)) :: runs 0 11 ++
    .spawn (.claimJob (some sampleAgentToken)) :: runs 1 2

theorem no_job_handed_out_twice_at_claimedRun :
    ∃ s, Reach (controlPlane plainApp) anyTerms (idle queuedDb 0) s ∧
      (s.db.job 3).map (fun j => (j.status, j.assignedNodeId)) = some (.running, some 2) ∧
      HandedOutOnce plainApp s := by
  obtain ⟨s, hs, hjob⟩ := Option.bind_eq_some_iff.1 (show
    (runFrom (controlPlane plainApp) (idle queuedDb 0) claimedRun).bind
      (fun s => (s.db.job 3).map fun j => (j.status, j.assignedNodeId)) =
        some (.running, some 2) by decide +kernel)
  have hdb : QueuedUnassigned queuedDb := by
    intro id j hj _
    rw [job_queuedDb hj]
    rfl
  have hr := Reach.of_runFrom hs
  exact ⟨s, hr, hjob, no_job_handed_out_twice plainApp hdb 0 hr⟩

end GpuNetwork
