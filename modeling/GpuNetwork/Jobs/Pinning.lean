import GpuNetwork.Commits.OneAtATime
import GpuNetwork.Jobs.Assignment

/-!
# Jobs that ask for a node

A job may be submitted for one node only.  A claim takes it for that node or leaves it
in the queue, but deleting the node sets the column to null, and a job that asks for no
node may be taken by any.

* `PinHonoured` — a job that starts to run does so on the node it was submitted for.
* `KeepsNode` — the node is not deleted.
* `PinsFit` — the node a queued job asks for is large enough, which `submit` does not check.
-/

namespace GpuNetwork

open ReadCommitted ReadCommitted.Spec

/-- A request commits a job that asks for the node. -/
def SubmitsPinned (id nodeId : Uuid) (s : System) (l : Label Request) : Prop :=
  ∃ (i : Nat) (th : Pending) (caller : Caller) (p : SubmitJobRequest), Commits s l i th ∧
    th.req = .submitJob caller p ∧ p.preferredNodeId = some nodeId ∧
    ∃ j : Job, j.id = id ∧ .insert (.job j) ∈ th.ses.tx.writes

/-- The job starts to run, on the node `nodeId` if on any. -/
def StartsOn (id : Uuid) (nodeId : Option Uuid) (db db' : Database) : Prop :=
  (∀ j, db.job id = some j → j.status ≠ .running) ∧
    ∃ j, db'.job id = some j ∧ j.status = .running ∧ j.assignedNodeId = nodeId

/-- Where a job was submitted for a node in a run with the terms `T`, and the run goes on
with the terms `T'` for that node, the job starts to run on no other. -/
def PinHonoured (app : App) (T : Terms Row Request ApiError Response)
    (T' : Uuid → Terms Row Request ApiError Response) (s₀ : System) : Prop :=
  ∀ (id P : Uuid) (s₁ s₂ s₃ s₄ : System) (l l' : Label Request) (nodeId : Option Uuid),
    Reach (controlPlane app) T s₀ s₁ → step (controlPlane app) s₁ l = some s₂ →
    SubmitsPinned id P s₁ l → Reach (controlPlane app) (T' P) s₂ s₃ →
    step (controlPlane app) s₃ l' = some s₄ → T' P s₃ l' s₄ →
    StartsOn id nodeId s₃.db s₄.db → nodeId = some P

/-- No commit deletes the node. -/
def KeepsNode (nodeId : Uuid) : Terms Row Request ApiError Response :=
  OnCommits fun _ _ th => .delete (.node nodeId) ∉ th.ses.tx.writes

variable {app : App} {rely : Rely} {refusals : Prop} {db : Database} {req : Request}
  {tx : Transaction}

/-- The job is there, and while it is in the queue it asks for the node. -/
def Pinned (id nodeId : Uuid) (db : Database) : Prop :=
  ∃ j, db.job id = some j ∧ (j.status = .queued → j.preferredNodeId = some nodeId)

/-- A submission commits the job it was asked for. -/
theorem pinned_of_submit (h : (platform app rely refusals).Committing db req tx)
    {caller : Caller} {p : SubmitJobRequest} {id nodeId : Uuid} (hreq : req = .submitJob caller p)
    (hp : p.preferredNodeId = some nodeId) {j : Job} (hid : j.id = id)
    (hw : .insert (.job j) ∈ tx.writes) : Pinned id nodeId (tx.view db) := by
  obtain ⟨u, j', a, -, -, -, hj, hfresh, hw'⟩ := shape_of_submitJob (hreq ▸ h.shape)
  have hnone : db.job j'.id = none := by rw [Db.job, h.get_of_fresh hfresh]
  rw [hw', List.mem_cons, List.mem_singleton] at hw
  rcases hw with hw | hw
  · cases hw
    have hview : (tx.view db).job j.id = some j := by
      rw [job_view_insert hw', if_pos rfl, hnone]
      rfl
    rw [hid] at hview
    exact ⟨j, hview, fun _ => by rw [hj]; exact hp⟩
  · cases hw

/-- **A commit that keeps the node keeps the pin.** -/
theorem pinned_of_committing (h : (platform app rely refusals).Committing db req tx)
    {id nodeId : Uuid} (hkeep : .delete (.node nodeId) ∉ tx.writes) (hdb : Pinned id nodeId db) :
    Pinned id nodeId (tx.view db) := by
  obtain ⟨j, hj, hpin⟩ := hdb
  have hstep := job_step h id
  rw [hj] at hstep
  generalize hj' : (tx.view db).job id = o at hstep
  cases hstep with
  | same => exact ⟨j, hj', hpin⟩
  | claimed hreq hn hdrain hmiss hclaim hfound hw => exact ⟨_, hj', fun hq => by cases hq⟩
  | completed hreq hn hread hassign hallowed hw =>
    refine ⟨_, hj', fun hq => ?_⟩
    rw [status_merge_terminated (ne_of_allowed hallowed)] at hq
    exact absurd hq (completionTarget_ne_queued _ _)
  | cancelled hc hread hstatus hw =>
    refine ⟨_, hj', fun hq => ?_⟩
    rw [status_merge_terminated (by rw [hstatus]; simp)] at hq
    cases hq
  | cancelRequested hc hread hstatus hnone hw =>
    refine ⟨_, hj', fun hq => ?_⟩
    simp only [Job.merge, Job.cancelRequested, col_self] at hq ⊢
    exact hpin hq
  | nodeDeleted hreq hmiss hw =>
    rename_i caller n
    have hne : n.id ≠ nodeId := fun he => hkeep (he ▸ hw)
    refine ⟨_, hj', fun hq => ?_⟩
    simp only [Job.cleared, setNull, hpin hq]
    rw [if_neg fun he => hne (Option.some.inj he).symm]

/-- A job that starts to run was taken out of the queue by a claim, for the node it asks
for. -/
theorem node_of_started (h : (platform app rely refusals).Committing db req tx)
    {id P : Uuid} {nodeId : Option Uuid} (hdb : Pinned id P db)
    (hstart : StartsOn id nodeId db (tx.view db)) : nodeId = some P := by
  obtain ⟨j, hj, hpin⟩ := hdb
  obtain ⟨hbefore, j', hj', hrun, hnode⟩ := hstart
  have hidle := hbefore j hj
  have hstep := job_step h id
  rw [hj, hj'] at hstep
  cases hstep with
  | same => exact absurd hrun hidle
  | claimed hreq hn hdrain hmiss hclaim hfound hw =>
    have hpref := hpin (status_of_claimable hclaim)
    simp only [Job.claimable, Bool.and_eq_true, Bool.or_eq_true, decide_eq_true_eq, hpref,
      reduceCtorEq, false_or] at hclaim
    rw [← hnode, hclaim.2]
    rfl
  | completed hreq hn hread hassign hallowed hw =>
    rename_i bearer p n old now
    have hterm := isTerminal_completionTarget old p.exitCode
    rw [status_merge_terminated (ne_of_allowed hallowed)] at hrun
    rw [hrun] at hterm
    cases hterm
  | cancelled hc hread hstatus hw =>
    rw [status_merge_terminated (by rw [hstatus]; simp)] at hrun
    cases hrun
  | cancelRequested hc hread hstatus hnone hw =>
    simp only [Job.merge, Job.cancelRequested, col_self] at hrun
    exact absurd hrun hidle
  | nodeDeleted hreq hmiss hw => exact absurd hrun hidle

/-- **The pin is honoured as long as the node is there**, whatever else interleaves. -/
theorem pin_is_honoured (app : App) (db : Database) (clock : Time) :
    PinHonoured app anyTerms KeepsNode (idle db clock) := by
  intro id P s₁ s₂ s₃ s₄ l l' nodeId h₁ hs hsubmit h₃ hs' ht' hstart
  have hok₁ : (onward app).Ok s₁ := onward_ok rfl h₁
  have hkept : ∀ {s s' : System} {l : Label Request}, step (controlPlane app) s l = some s' →
      (onward app).Kept s l s' := fun hst =>
    kept_of_commits (P := onward app) trivial (fun _ _ _ hcom _ _ => onward_of_committing hcom) hst
  have hok₂ : (onward app).Ok s₂ := ok_step (platform_valid app _ _) hok₁ hs (hkept hs)
  have hpin₂ : Pinned id P s₂.db := by
    obtain ⟨i, th, caller, p, hc, hreq, hp, j, hid, hw⟩ := hsubmit
    rw [db_of_commits hc hs]
    exact pinned_of_submit (hok₁.committing hc) hreq hp hid hw
  have hpin₃ : Pinned id P s₃.db :=
    invariant (P := onward app) (platform_valid app _ _) (fun _ _ _ hst _ _ => hkept hst)
      (Pinned id P) (fun _ _ _ i th ht hc hcom hI => pinned_of_committing hcom (ht i th hc) hI)
      hok₂ hpin₂ h₃
  have hok₃ : (onward app).Ok s₃ :=
    ok_reach (platform_valid app _ _) (fun _ _ _ hst _ _ => hkept hst) hok₂ h₃
  rcases hok₃.db_cases hs' with hdb | ⟨i, th, th', hc, hcom, hdb, -⟩
  · obtain ⟨hbefore, j, hj, hrun, -⟩ := hstart
    rw [hdb] at hj
    exact absurd hrun (hbefore j hj)
  · rw [hdb] at hstart
    exact node_of_started hcom hpin₃ hstart

/-- The agent token of another node of the same host. -/
def otherAgentToken : Str := "gpuagent_other".toList

/-- Two nodes and no job. -/
def twoNodesDb : Database :=
  ((Db.empty.insert (.user sampleUser)).insert (.node sampleNode)).insert (.node
    { sampleNode with
      id := 5, name := "other".toList, agentTokenHash := some otherAgentToken
      agentTokenPrefix := some (lookupPrefix otherAgentToken) })

/-- A job for `sampleNode`. -/
def pinnedJob : SubmitJobRequest := { sampleSubmission with preferredNodeId := some 2 }

/-- The submission up to its commit. -/
def submittingRun : List (Label Request) := .spawn (.submitJob sampleCaller pinnedJob) :: runs 0 8

/-- The rest of the submission; the node is deleted, and the other one claims the job. -/
def unpinningRun : List (Label Request) :=
  runs 0 1 ++ .spawn (.deleteNode sampleCaller 2) :: runs 1 9 ++
    .spawn (.claimJob (some otherAgentToken)) :: runs 2 9

/-- The job the request commits, and the node it asks for. -/
def pinOf (req : Request) (tx : Transaction) : Option (Uuid × Option Uuid) :=
  match req, tx.writes with
  | .submitJob _ p, .insert (.job j) :: _ => some (j.id, p.preferredNodeId)
  | _, _ => none

theorem submits_of_pinOf {s : System} {l : Label Request} {i : Nat} {th : Pending}
    {id nodeId : Uuid} (hc : Commits s l i th)
    (h : pinOf th.req th.ses.tx = some (id, some nodeId)) : SubmitsPinned id nodeId s l := by
  unfold pinOf at h
  split at h
  · rename_i caller p j rest hreq hw
    obtain ⟨hid, hp⟩ := Prod.mk.inj (Option.some.inj h)
    exact ⟨i, th, caller, p, hc, hreq, hp, j, hid, by rw [hw]; exact List.mem_cons_self ..⟩
  · cases h

/-- **A pin does not outlive its node**, even if requests are answered one at a time. -/
theorem pin_lost_with_its_node :
    ¬ PinHonoured plainApp OneAtATime (fun _ => OneAtATime) (idle twoNodesDb 0) := by
  intro h
  obtain ⟨s₁, h₁, hrest⟩ := Option.bind_eq_some_iff.1 (show
    (runWhile (controlPlane plainApp) Sys.idles (idle twoNodesDb 0) submittingRun).bind (fun s₁ =>
      (s₁.committing (.run 0 0)).bind fun x => (step (controlPlane plainApp) s₁ (.run 0 0)).bind
        fun s₂ => (runWhile (controlPlane plainApp) Sys.idles s₂ unpinningRun).bind fun s₃ =>
          (step (controlPlane plainApp) s₃ (.run 2 2)).map fun s₄ =>
            (pinOf x.2.req x.2.ses.tx, (s₃.db.job 0).map Job.status,
              (s₄.db.job 0).map fun j => (j.status, j.assignedNodeId))) =
      some (some (0, some 2), some .queued, some (.running, some 5)) by decide +kernel)
  obtain ⟨⟨i, th⟩, hc, hrest⟩ := Option.bind_eq_some_iff.1 hrest
  obtain ⟨s₂, h₂, hrest⟩ := Option.bind_eq_some_iff.1 hrest
  obtain ⟨s₃, h₃, hrest⟩ := Option.bind_eq_some_iff.1 hrest
  obtain ⟨s₄, h₄, hboth⟩ := Option.map_eq_some_iff.1 hrest
  obtain ⟨hpin, hjobs⟩ := Prod.mk.inj hboth
  obtain ⟨hbefore, hafter⟩ := Prod.mk.inj hjobs
  obtain ⟨j, hj, hfields⟩ := Option.map_eq_some_iff.1 hafter
  obtain ⟨hrun, hnode⟩ := Prod.mk.inj hfields
  have hstart : StartsOn 0 (some 5) s₃.db s₄.db := by
    refine ⟨fun j₃ hj₃ => ?_, j, hj, hrun, hnode⟩
    rw [hj₃, Option.map_some, Option.some.injEq] at hbefore
    rw [hbefore]
    simp
  have hhonoured := h 0 2 s₁ s₂ s₃ s₄ _ _ _ (Reach.of_idles h₁) h₂
    (submits_of_pinOf (committing_eq_some_iff.1 hc) hpin) (Reach.of_idles h₃) h₄
    (fun req he => by cases he) hstart
  cases hhonoured

/-! ## Pins and sizes -/

/-- A job in the queue that asks for a node asks for one that is there and large enough. -/
def PinsFit (db : Database) : Prop :=
  ∀ id j P, db.job id = some j → j.status = .queued → j.preferredNodeId = some P →
    ∃ n, db.node P = some n ∧ j.gpuCount ≤ n.gpuCount

/-- A job is submitted for no node that is too small for it. -/
def SubmitsFit : Terms Row Request ApiError Response :=
  OnCommits fun s _ th => ∀ j P, .insert (.job j) ∈ th.ses.tx.writes →
    j.preferredNodeId = some P → ∃ n, s.db.node P = some n ∧ j.gpuCount ≤ n.gpuCount

/-- **The size of a node never changes.** -/
theorem gpuCount_of_committing (h : (platform app rely refusals).Committing db req tx)
    {id : Uuid} {n n' : Node} (hn : db.node id = some n) (hn' : (tx.view db).node id = some n') :
    n'.gpuCount = n.gpuCount := by
  have hstep := node_step h id
  rw [hn, hn'] at hstep
  cases hstep with
  | same => rfl
  | seen => rfl
  | drained hd hread hstatus => rfl
  | undrained hreq hread hstatus => rfl

/-- **A job that asked for a node asks for none once the node is deleted.** -/
theorem unpinned_of_deleted (h : (serially app).Committing db req tx) {id P : Uuid} {j : Job}
    {n : Node} (hj : db.job id = some j) (hpref : j.preferredNodeId = some P)
    (hn : db.node P = some n) (hgone : (tx.view db).node P = none) :
    ∃ j', (tx.view db).job id = some j' ∧ j'.preferredNodeId = none := by
  obtain ⟨-, a, e, he, hw⟩ := removal_of_removed h hn hgone
  -- the deletion has seen the job, and takes the reference with it
  rw [h.toSince.db_eq_of_alone (fun _ _ _ hab => hab) he] at hw
  have hrow : (db.insert (.auditLog a)).get (.job id) = some (.job j) :=
    Db.get_insert_of_get (Db.get_job_iff.2 hj)
  have href : Row.job j ∈ referring (db.insert (.auditLog a)) (.node P) := by
    refine List.mem_filter.2 ⟨Db.mem_of_get hrow, ?_⟩
    simp [Schema.refs, Row.refs, hpref]
  have hid := Db.id_of_job hj
  subst hid
  rcases get_view_delete db (.job j.id) hw (by simp) (by simp) with
    ⟨r, hr, hk, hget⟩ | ⟨hall, -⟩
  · have hsame : r = .job j :=
      List.inj_on_of_nodup_map (db.insert (.auditLog a)).nodup (List.mem_filter.1 hr).1
        (List.mem_filter.1 href).1 hk
    subst hsame
    refine ⟨j.cleared P, Db.job_of_get ?_, by simp [Job.cleared, setNull, hpref]⟩
    rw [hget, Db.get_job_iff.2 hj]
    simp [unrefWrite, Schema.unref, Row.unref, Write.on, Row.key, Row.merge, Job.merge,
      Job.cleared]
  · exact absurd rfl (hall _ href)

/-- A commit leaves a node that is there in place, with its size, or deletes it. -/
theorem node_after (h : (platform app rely refusals).Committing db req tx) {id : Uuid} {n : Node}
    (hn : db.node id = some n) : (tx.view db).node id = none ∨
      ∃ n', (tx.view db).node id = some n' ∧ n'.gpuCount = n.gpuCount := by
  cases hn' : (tx.view db).node id with
  | none => exact Or.inl rfl
  | some n' => exact Or.inr ⟨n', rfl, gpuCount_of_committing h hn hn'⟩

/-- **Every commit that submits a job only for a node that fits keeps the pins fitting.** -/
theorem pinsFit_of_committing (h : (serially app).Committing db req tx)
    (hsubmit : ∀ j P, .insert (.job j) ∈ tx.writes → j.preferredNodeId = some P →
      ∃ n, db.node P = some n ∧ j.gpuCount ≤ n.gpuCount)
    (hdb : PinsFit db) : PinsFit (tx.view db) := by
  intro id j' P hj' hq hpref
  -- where the job asked for the same node before, the node is still there
  have hkept : ∀ j, db.job id = some j → j.preferredNodeId = some P → j.status = .queued →
      j'.gpuCount = j.gpuCount → ∃ n, (tx.view db).node P = some n ∧ j'.gpuCount ≤ n.gpuCount := by
    intro j hj hp hqueued hgpu
    obtain ⟨n, hn, hle⟩ := hdb id j P hj hqueued hp
    rcases node_after h hn with hgone | ⟨n', hn', hsize⟩
    · obtain ⟨j₁, hj₁, hnone⟩ := unpinned_of_deleted h hj hp hn hgone
      rw [hj', Option.some.injEq] at hj₁
      rw [← hj₁, hpref] at hnone
      cases hnone
    · exact ⟨n', hn', by rw [hsize, hgpu]; exact hle⟩
  have hstep := job_step h id
  rw [hj'] at hstep
  generalize hb : db.job id = o at hstep hkept
  cases hstep with
  | same => exact hkept j' rfl hpref hq rfl
  | submitted hreq hu hid hj =>
    rename_i caller p u
    obtain ⟨v, j₀, a, -, -, -, -, -, hw⟩ := shape_of_submitJob (hreq ▸ h.shape)
    rw [job_view_insert hw, hb] at hj'
    split at hj'
    · cases hj'
      obtain ⟨n, hn, hle⟩ := hsubmit j' P (by rw [hw]; exact List.mem_cons_self ..) hpref
      have hsame : (tx.view db).node P = db.node P :=
        Db.node_congr (Tx.view_get (by rw [hw]; simp [Write.target, Row.key]) db)
      exact ⟨n, hsame.trans hn, hle⟩
    · cases hj'
  | claimed hreq hn hdrain hmiss hclaim hfound hw => cases hq
  | completed hreq hn hread hassign hallowed hw =>
    rw [status_merge_terminated (ne_of_allowed hallowed)] at hq
    exact absurd hq (completionTarget_ne_queued _ _)
  | cancelled hc hread hstatus hw =>
    rw [status_merge_terminated (by rw [hstatus]; simp)] at hq
    cases hq
  | cancelRequested hc hread hstatus hnone hw =>
    rename_i event old cur now
    simp only [Job.merge, Job.cancelRequested, col_self] at hq hpref
    exact hkept cur rfl hpref hq rfl
  | nodeDeleted hreq hmiss hw =>
    rename_i caller n j
    have hp : j.preferredNodeId = some P := by
      simp only [Job.cleared, setNull] at hpref
      split at hpref
      · cases hpref
      · exact hpref
    exact hkept j rfl hp hq rfl

/-- **A queued job that asks for a node can be claimed by it**, in every state of every run
of one request at a time in which jobs are submitted only for nodes that are large enough. -/
theorem pinned_jobs_are_claimable (app : App) {db : Database} (hdb : PinsFit db) (clock : Time)
    {s : System} (h : Reach (controlPlane app)
      (fun s l s' => OneAtATime s l s' ∧ SubmitsFit s l s') (idle db clock) s) :
    PinsFit s.db ∧ ∀ id j P, s.db.job id = some j → j.status = .queued →
      j.preferredNodeId = some P →
      ∃ n, s.db.node P = some n ∧ j.claimable P n.gpuCount = true := by
  have hfit : PinsFit s.db :=
    serial_invariant (P := serially app) (platform_valid app _ _) trivial
      (fun _ _ _ ht => ht.1) PinsFit
      (fun _ _ _ i th ht hc hcom hI => pinsFit_of_committing hcom (ht.2 i th hc) hI) rfl hdb h
  refine ⟨hfit, fun id j P hj hq hpref => ?_⟩
  obtain ⟨n, hn, hle⟩ := hfit id j P hj hq hpref
  exact ⟨n, hn, by simp [Job.claimable, hq, hpref, hle]⟩

/-- A job of two GPUs for `sampleNode`, which has one. -/
def oversizedJob : SubmitJobRequest :=
  { pinnedJob with gpuCount := 2, gpuCount_range := by decide }

/-- The job is submitted. -/
def pinningRun (p : SubmitJobRequest) : List (Label Request) :=
  .spawn (.submitJob sampleCaller p) :: runs 0 10

/-- A job that is submitted for a node fits there. -/
def submitsFit (s : System) (_ : Nat) (th : Pending) : Bool :=
  th.ses.tx.writes.all fun w =>
    match w with
    | .insert (.job j) => j.preferredNodeId.all fun P =>
        (s.db.node P).any fun n => decide (j.gpuCount ≤ n.gpuCount)
    | _ => true

theorem submitsFit_sound {s s' : System} {l : Label Request}
    (h : passes submitsFit s l = true) : SubmitsFit s l s' := by
  intro i th hc j P hw hpref
  have hcheck := List.all_eq_true.1 (passes_sound h hc) _ hw
  simp only [hpref, Option.all_some] at hcheck
  obtain ⟨n, hn, hle⟩ := (Option.any_eq_true _ _).1 hcheck
  exact ⟨n, hn, of_decide_eq_true hle⟩

theorem pinsFit_twoNodesDb : PinsFit twoNodesDb := by
  intro id j P hj
  have hmem := Db.mem_of_get (Db.get_job_iff.2 hj)
  rw [show twoNodesDb.rows = [.user sampleUser, .node sampleNode, .node
    { sampleNode with
      id := 5, name := "other".toList, agentTokenHash := some otherAgentToken
      agentTokenPrefix := some (lookupPrefix otherAgentToken) }] by decide +kernel] at hmem
  simp at hmem

theorem pinned_jobs_are_claimable_at_pinningRun :
    ∃ s, Reach (controlPlane plainApp) (fun s l s' => OneAtATime s l s' ∧ SubmitsFit s l s')
        (idle twoNodesDb 0) s ∧
      (s.db.job 0).map (fun j => (j.status, j.preferredNodeId)) = some (.queued, some 2) ∧
      PinsFit s.db ∧ ∀ id j P, s.db.job id = some j → j.status = .queued →
        j.preferredNodeId = some P →
        ∃ n, s.db.node P = some n ∧ j.claimable P n.gpuCount = true := by
  obtain ⟨s, hs, hjob⟩ := Option.bind_eq_some_iff.1 (show
    (runWhile (controlPlane plainApp) (fun s l => s.idles l && passes submitsFit s l)
      (idle twoNodesDb 0) (pinningRun pinnedJob)).bind
      (fun s => (s.db.job 0).map fun j => (j.status, j.preferredNodeId)) =
        some (.queued, some 2) by decide +kernel)
  have hr : Reach (controlPlane plainApp)
      (fun s l s' => OneAtATime s l s' ∧ SubmitsFit s l s') (idle twoNodesDb 0) s :=
    (Reach.of_runWhile hs).mono fun s l s' ht => by
      obtain ⟨hidle, hpass⟩ := Bool.and_eq_true_iff.1 ht.1
      exact ⟨oneAtATime_of_idles hidle, submitsFit_sound hpass⟩
  exact ⟨s, hr, hjob, pinned_jobs_are_claimable plainApp pinsFit_twoNodesDb 0 hr⟩

/-- **A job can ask for a node that is too small for it**, and is admitted. -/
theorem pinned_job_is_unclaimable :
    ¬ ∀ s, Reach (controlPlane plainApp) OneAtATime (idle twoNodesDb 0) s → PinsFit s.db := by
  intro h
  obtain ⟨s, hs, hfacts⟩ := Option.bind_eq_some_iff.1 (show
    (runWhile (controlPlane plainApp) Sys.idles (idle twoNodesDb 0)
      (pinningRun oversizedJob)).bind
      (fun s => (s.db.job 0).bind fun j => (s.db.node 2).map fun n =>
        (j.status, j.preferredNodeId, j.gpuCount, n.gpuCount)) =
        some (.queued, some 2, 2, 1) by decide +kernel)
  obtain ⟨j, hj, hfacts⟩ := Option.bind_eq_some_iff.1 hfacts
  obtain ⟨n, hn, hfacts⟩ := Option.map_eq_some_iff.1 hfacts
  simp only [Prod.mk.injEq] at hfacts
  obtain ⟨hq, hpref, hjobs, hsize⟩ := hfacts
  obtain ⟨n', hn', hle⟩ := h s (Reach.of_idles hs) 0 j 2 hj hq hpref
  rw [hn, Option.some.injEq] at hn'
  subst hn'
  omega

end GpuNetwork
