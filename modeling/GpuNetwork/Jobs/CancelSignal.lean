import GpuNetwork.Commits.Alone
import GpuNetwork.Jobs.Columns
import GpuNetwork.Jobs.Occupancy

/-!
# The cancel signal

An agent learns that its job is to be cancelled from the answers to its heartbeats.  The
answer is made from the one row of a query that asks for no order, and from a flag of that
row; both are as they should be where requests are answered one at a time.

* `CancelAccepted` — a cancel of the job has been committed.
* `running_stays`, `terminal_stays` — what becomes of a job that runs, and of one that has
  ended.
* `Signalled` — a job that runs carries the flag exactly if its cancel has been accepted.
* `Delivers` — what the heartbeats say in a state and from it on.
-/

namespace GpuNetwork

open ReadCommitted ReadCommitted.Spec

/-- A cancel or a force-kill of the job has been accepted. -/
def CancelAccepted (s : System) (id : Uuid) : Prop :=
  ∃ (i : Nat) (th : Pending) (event : Event), s.threads[i]? = some th ∧
    Cancels th.req id event ∧ th.ses.past ≠ []

/-- The job has left the queue, and carries a request to cancel it if it runs. -/
def Job.heeds (j : Job) : Prop :=
  j.status ≠ .queued ∧ (j.status = .running → j.cancelRequestedAt.isSome = true)

variable {app : App} {db : Database} {req : Request} {tx : Transaction}

/-! ## One commit -/

/-- **A job that runs** goes on running where it does, and keeps a request to cancel it,
until its agent completes it. -/
theorem running_stays (h : (serially app).Committing db req tx) {id nodeId : Uuid} {j : Job}
    (hj : db.job id = some j) (hrun : j.runningOn nodeId = true) :
    ∃ j', (tx.view db).job id = some j' ∧
      ((j'.runningOn nodeId = true ∧
          (j.cancelRequestedAt.isSome = true → j'.cancelRequestedAt.isSome = true)) ∨
        (j'.status.isTerminal = true ∧ ∃ bearer p, req = .completeJob bearer id p)) := by
  obtain ⟨hnode, hstatus⟩ := runningOn_iff.1 hrun
  have hstep := job_step h id
  rw [hj] at hstep
  generalize (tx.view db).job id = o at hstep
  cases hstep with
  | same => exact ⟨j, rfl, Or.inl ⟨hrun, fun hflag => hflag⟩⟩
  | claimed hreq hn hdrain hmiss hclaim hfound hw =>
    rw [status_of_claimable hclaim] at hstatus
    cases hstatus
  | completed hreq hn hread hassign hallowed hw =>
    refine ⟨_, rfl, Or.inr ⟨?_, _, _, hreq⟩⟩
    rw [status_merge_terminated (ne_of_allowed hallowed)]
    exact isTerminal_completionTarget _ _
  | cancelled hreq hread hq hw =>
    have hcur := job_of_read h.toSince hread
    rw [id_of_read_job hread, hj, Option.some.injEq] at hcur
    rw [← hcur, hstatus] at hq
    cases hq
  | cancelRequested hreq hread hr hnone hw =>
    have hcur := job_of_read h.toSince hread
    rw [id_of_read_job hread, hj, Option.some.injEq] at hcur
    subst hcur
    rw [merge_cancelRequested]
    exact ⟨_, rfl, Or.inl ⟨runningOn_iff.2 ⟨hnode, hstatus⟩, fun _ => rfl⟩⟩
  | nodeDeleted hreq hmiss hw =>
    -- the node of a running job is not deleted
    have hother := idle_of_missed h.toSince hmiss hj hstatus
    rename_i caller n
    refine ⟨_, rfl, Or.inl ⟨runningOn_iff.2 ⟨?_, hstatus⟩, fun hflag => hflag⟩⟩
    have hne : nodeId ≠ n.id := fun he => hother (he ▸ hnode)
    simp [Job.cleared, setNull, hnode, hne]

/-- **A job that has ended** stays so. -/
theorem terminal_stays {rely : Rely} {refusals : Prop}
    (h : (platform app rely refusals).Committing db req tx) {id : Uuid} {j : Job}
    (hj : db.job id = some j) (hterm : j.status.isTerminal = true) :
    ∃ j', (tx.view db).job id = some j' ∧ j'.status.isTerminal = true := by
  have hstep := job_step h id
  rw [hj] at hstep
  generalize (tx.view db).job id = o at hstep
  cases hstep with
  | same => exact ⟨j, rfl, hterm⟩
  | claimed hreq hn hdrain hmiss hclaim hfound hw =>
    rw [status_of_claimable hclaim] at hterm
    cases hterm
  | completed hreq hn hread hassign hallowed hw =>
    refine ⟨_, rfl, ?_⟩
    rw [status_merge_terminated (ne_of_allowed hallowed)]
    exact isTerminal_completionTarget _ _
  | cancelled hreq hread hq hw =>
    refine ⟨_, rfl, ?_⟩
    rw [status_merge_terminated (by rw [hq]; simp)]
    rfl
  | cancelRequested hreq hread hr hnone hw =>
    refine ⟨_, rfl, ?_⟩
    simpa [Job.merge, Job.cancelRequested] using hterm
  | nodeDeleted hreq hmiss hw => exact ⟨_, rfl, hterm⟩

/-- **A cancel that is heeded** is heeded from then on. -/
theorem heeds_of_committing (h : (serially app).Committing db req tx) (hfit : JobsFit db)
    {id : Uuid} {j : Job} (hj : db.job id = some j) (hheeds : j.heeds) :
    ∃ j', (tx.view db).job id = some j' ∧ j'.heeds := by
  have hended : ∀ {j' : Job}, j'.status.isTerminal = true → j'.heeds := by
    intro j' hterm
    refine ⟨fun hq => ?_, fun hr => ?_⟩
    · rw [hq] at hterm; cases hterm
    · rw [hr] at hterm; cases hterm
  obtain ⟨hq, hflag⟩ := hheeds
  by_cases hrun : j.status = .running
  · -- it runs somewhere
    have hplaced := hfit id j hj
    unfold Job.Fits at hplaced
    rw [hrun] at hplaced
    obtain ⟨n, hnode, -⟩ := hplaced.2.2.2
    obtain ⟨j', hj', ⟨hrun', hkeeps⟩ | ⟨hterm, -⟩⟩ :=
      running_stays h hj (runningOn_iff.2 ⟨hnode, hrun⟩)
    · refine ⟨j', hj', fun hq' => ?_, fun _ => hkeeps (hflag hrun)⟩
      rw [(runningOn_iff.1 hrun').2] at hq'
      cases hq'
    · exact ⟨j', hj', hended hterm⟩
  · have hterm : j.status.isTerminal = true := by
      cases hs : j.status <;> simp_all [JobStatus.isTerminal]
    obtain ⟨j', hj', hterm'⟩ := terminal_stays h hj hterm
    exact ⟨j', hj', hended hterm'⟩

/-- **A cancel is heeded** when it commits. -/
theorem heeds_of_cancels (h : (serially app).Committing db req tx) (hfit : JobsFit db)
    {id : Uuid} {event : Event} (hc : Cancels req id event) :
    ∃ j', (tx.view db).job id = some j' ∧ j'.heeds := by
  rcases shape_of_cancels h.shape hc with ⟨old, now, hread, hstatus, hfound, hw⟩ |
    ⟨old, now, hread, hstatus, hnone, hfound, hw⟩ | ⟨old, hread, hstatus, hsome⟩
  · have hid := id_of_read_job hread
    subst hid
    have hview := (job_of_update h hw).1
    rw [job_of_read h.toSince hread, Option.map_some, merge_terminated] at hview
    exact ⟨_, hview, by simp [Job.heeds, Job.terminated]⟩
  · have hid := id_of_read_job hread
    subst hid
    have hview := (job_of_update h hw).1
    rw [job_of_read h.toSince hread, Option.map_some, merge_cancelRequested] at hview
    exact ⟨_, hview, by simp [Job.heeds, Job.cancelRequested, hstatus]⟩
  · have hid := id_of_read_job hread
    subst hid
    -- the flag was there already
    refine heeds_of_committing h hfit (job_of_read h.toSince hread) ⟨?_, fun _ => hsome⟩
    rw [hstatus]
    simp

/-- **A job that runs is flagged** by a cancel, or was before. -/
theorem flagged_of_committing (h : (serially app).Committing db req tx) (hfit : JobsFit db)
    {id : Uuid} {j' : Job} (hj' : (tx.view db).job id = some j') (hrun : j'.status = .running)
    (hflag : j'.cancelRequestedAt.isSome = true) :
    (∃ event, Cancels req id event) ∨ ∃ j, db.job id = some j ∧ j.status = .running ∧
      j.cancelRequestedAt.isSome = true := by
  have hstep := job_step h id
  rw [hj'] at hstep
  generalize hb : db.job id = o at hstep
  cases hstep with
  | same => exact Or.inr ⟨j', rfl, hrun, hflag⟩
  | submitted hreq hu hid hj => rw [hj] at hrun; cases hrun
  | claimed hreq hn hdrain hmiss hclaim hfound hw =>
    -- a job in the queue carries no request
    have hqueued := hfit id _ hb
    unfold Job.Fits at hqueued
    rw [status_of_claimable hclaim] at hqueued
    have hnone := hqueued.2.2.2.2.2
    simp only [Job.claimedBy, hnone, Option.isSome_none, Bool.false_eq_true] at hflag
  | completed hreq hn hread hassign hallowed hw =>
    rename_i bearer p n old cur now
    have hterm := isTerminal_completionTarget old p.exitCode
    rw [status_merge_terminated (ne_of_allowed hallowed)] at hrun
    rw [hrun] at hterm
    cases hterm
  | cancelled hreq hread hq hw =>
    rw [status_merge_terminated (by rw [hq]; simp)] at hrun
    cases hrun
  | cancelRequested hreq hread hr hnone hw => exact Or.inl ⟨_, hreq⟩
  | nodeDeleted hreq hmiss hw => exact Or.inr ⟨_, rfl, hrun, hflag⟩

/-- A claim that has found its node free finds it free when it commits. -/
theorem not_occupied_of_committing (h : (serially app).Committing db req tx) :
    ¬ Occupied db tx := by
  rintro ⟨w, hw, hocc⟩
  obtain ⟨old, new, nodeId, rfl, hnode, hrun, hq, hany⟩ := occupies_cases hocc
  obtain ⟨bearer, rfl⟩ := claims_of_started h hw hq hrun
  obtain ⟨n, j, now, a, -, -, hmiss, -, -, hws⟩ := shape_of_claimJob h.shape
  rw [hws] at hw
  simp only [List.mem_cons, Write.update.injEq, Row.job.injEq, reduceCtorEq, List.not_mem_nil,
    or_false] at hw
  obtain ⟨rfl, rfl⟩ := hw
  simp only [Job.claimedBy, Option.some.injEq] at hnode
  subst hnode
  obtain ⟨id, j', hj', hon⟩ := exists_running_iff.1 hany
  obtain ⟨hnode', hrun'⟩ := runningOn_iff.1 hon
  exact idle_of_missed h.toSince hmiss hj' hrun' hnode'

/-! ## The answer to a heartbeat -/

/-- The job that the answer to a heartbeat asks to cancel. -/
def cancelTarget (current : Option Job) : Option Uuid :=
  current.bind fun job => if job.cancelRequestedAt.isSome then some job.id else none

/-- The transaction of a heartbeat leaves the jobs alone. -/
theorem job_view_flushed_node {old new : Node} (hw : tx.writes = flushed (.node old) (.node new))
    (id : Uuid) : (tx.view db).job id = db.job id := by
  refine Db.job_congr (Tx.view_get (fun w hmem => ?_) db)
  rw [hw] at hmem
  rw [target_of_mem_flushed hmem]
  simp [Row.key]

/-- **What a heartbeat answers** is made from a job that runs on its node. -/
theorem heartbeat_answers {bearer : Option Str} {nodeId : Uuid} {w w' : Scene} {t : Time}
    {c : Option Uuid} (hw : w.ses.tx.writes = [])
    (h : (heartbeat app bearer nodeId).alone .database w = (.ok (.heartbeat t c), w')) :
    (∃ pick, c = cancelTarget (rowJob (pickRow pick
      (matching w'.db (.runningForNode nodeId))))) ∧ ∀ id, w'.db.job id = w.db.job id := by
  obtain ⟨n, w₁, hn, hrest⟩ := ok_of_bind h
  have h₁ := alone_of_reads (reads_currentNode _) hn
  dsimp only at hrest
  split at hrest
  · cases hrest
  rename_i hid
  rw [ne_eq, not_not] at hid
  obtain ⟨u, w₂, hseen, hrest⟩ := ok_of_bind hrest
  obtain ⟨hdb₂, now, hws₂⟩ := alone_updateLastSeen hseen
  obtain ⟨u', w₃, hcommit, hrest⟩ := ok_of_bind hrest
  obtain ⟨hdb₃, hws₃⟩ := alone_commitTx hcommit
  obtain ⟨n', w₄, hrefresh, hrest⟩ := ok_of_bind hrest
  have h₄ := alone_of_reads (reads_refreshNode _) hrefresh
  have hn' := Db.id_of_node (alone_refreshNode hrefresh)
  -- the store after the commit is the one that is read from here on
  rw [getRunningForNode, selectJob_bind, alone_select, h₄.view, Tx.view_of_no_writes hws₃, utcNow,
    Prog.exec_bind, alone_now, Prog.pure_eq, alone_ret, hn', hid] at hrest
  obtain ⟨hanswer, rfl⟩ := Prod.mk.inj hrest
  have hdb : w₄.db = w₂.ses.tx.view w.db := by rw [h₄.db, hdb₃, hdb₂, h₁.db]
  rw [h₁.writes, hw, List.nil_append] at hws₂
  refine ⟨⟨(w₄.moments 0).pick, ?_⟩, fun id => ?_⟩
  · cases hanswer
    rw [← h₄.db]
    rfl
  · show w₄.db.job id = w.db.job id
    rw [hdb]
    exact job_view_flushed_node hws₂ id

/-- Where no two jobs run on one node, the query finds the one that does. -/
theorem cancelTarget_eq_iff (hone : OnePerNode db) {nodeId : Uuid} {pick : Nat} {id : Uuid} :
    cancelTarget (rowJob (pickRow pick (matching db (.runningForNode nodeId)))) = some id ↔
      ∃ j, db.job id = some j ∧ j.runningOn nodeId = true ∧
        j.cancelRequestedAt.isSome = true := by
  have hrow : ∀ {r : Row}, r ∈ matching db (.runningForNode nodeId) →
      ∃ j, r = .job j ∧ db.job j.id = some j ∧ j.runningOn nodeId = true := by
    intro r hr
    obtain ⟨hmem, hholds⟩ := mem_matching.1 hr
    cases r with
    | job j => exact ⟨j, rfl, Db.get_job_iff.1 (Db.get_of_mem hmem), hholds⟩
    | _ => cases hholds
  rcases pickRow_cases pick (matching db (.runningForNode nodeId)) with
    ⟨hpick, hnone⟩ | ⟨r, hr, hpick⟩
  · rw [hpick]
    constructor
    · intro h
      cases h
    · rintro ⟨j, hj, hrun, -⟩
      have hmem : Row.job j ∈ matching db (.runningForNode nodeId) :=
        mem_matching.2 ⟨Db.mem_of_get (Db.get_job_iff.2 hj), hrun⟩
      rw [hnone] at hmem
      cases hmem
  · obtain ⟨j, rfl, hj, hrun⟩ := hrow hr
    rw [hpick]
    simp only [rowJob, cancelTarget, Option.bind_some]
    constructor
    · intro h
      split at h
      · rename_i hflag
        cases h
        exact ⟨j, hj, hrun, hflag⟩
      · cases h
    · rintro ⟨j', hj', hrun', hflag⟩
      -- both run on the node
      have hid := hone j.id id j j' nodeId hj hj' hrun hrun'
      subst hid
      rw [hj, Option.some.injEq] at hj'
      subst hj'
      rw [if_pos hflag]

/-! ## Runs -/

/-- A store on which no cancel is under way. -/
structure Quiet (db : Database) : Prop where
  fits : JobsFit db
  onePerNode : OnePerNode db
  unflagged : ∀ id j, db.job id = some j → j.status = .running → j.cancelRequestedAt = none

/-- What is so in every state of a run of one request at a time. -/
structure Signalled (s : System) : Prop where
  fits : JobsFit s.db
  onePerNode : OnePerNode s.db
  heeded : ∀ id, CancelAccepted s id → ∃ j, s.db.job id = some j ∧ j.heeds
  flagged : ∀ id j, s.db.job id = some j → j.status = .running →
    j.cancelRequestedAt.isSome = true → CancelAccepted s id

/-- A cancel that has been accepted is accepted from then on. -/
theorem cancelAccepted_step {s s' : System} {l : Label Request} {id : Uuid}
    (hs : step (controlPlane app) s l = some s') (h : CancelAccepted s id) :
    CancelAccepted s' id := by
  obtain ⟨i, th, event, hi, hc, hpast⟩ := h
  obtain ⟨th', hi'⟩ := thread_after hs hi
  rcases past_cases hs hi' with ⟨hnone, -⟩ | ⟨tj, htj, hreq, hcases⟩
  · rw [hi] at hnone
    cases hnone
  · rw [hi, Option.some.injEq] at htj
    subst htj
    refine ⟨i, th', event, hi', hreq ▸ hc, ?_⟩
    rcases hcases with hp | ⟨-, hp⟩
    · rwa [hp]
    · simp [hp]

/-- A cancel that is accepted after a step was before, or is the one that commits. -/
theorem cancelAccepted_cases {s s' : System} {l : Label Request} {id : Uuid}
    (hs : step (controlPlane app) s l = some s') (h : CancelAccepted s' id) :
    CancelAccepted s id ∨ ∃ (i : Nat) (th : Pending) (event : Event), Commits s l i th ∧
      Cancels th.req id event := by
  obtain ⟨i, th', event, hi, hc, hpast⟩ := h
  rcases past_cases hs hi with ⟨-, hnil⟩ | ⟨th, hth, hreq, hp | ⟨hcommits, -⟩⟩
  · exact absurd hnil hpast
  · exact Or.inl ⟨i, th, event, hth, hreq ▸ hc, hp ▸ hpast⟩
  · exact Or.inr ⟨i, th, event, hcommits, hreq ▸ hc⟩

theorem signalled_step {s s' : System} {l : Label Request} (hok : (serially app).Ok s)
    (hI : Signalled s) (hs : step (controlPlane app) s l = some s') : Signalled s' := by
  have hkept : ∀ id, CancelAccepted s id → ∃ j, s'.db.job id = some j ∧ j.heeds := by
    intro id hacc
    obtain ⟨j, hj, hheeds⟩ := hI.heeded id hacc
    rcases hok.db_cases hs with hdb | ⟨i, th, th', -, hcom, hdb, -⟩
    · rw [hdb]; exact ⟨j, hj, hheeds⟩
    · rw [hdb]; exact heeds_of_committing hcom hI.fits hj hheeds
  have hheeded : ∀ id, CancelAccepted s' id → ∃ j, s'.db.job id = some j ∧ j.heeds := by
    intro id hacc
    rcases cancelAccepted_cases hs hacc with hacc | ⟨i, th, event, hc, hreq⟩
    · exact hkept id hacc
    · rw [db_of_commits hc hs]
      exact heeds_of_cancels (hok.committing hc) hI.fits hreq
  rcases hok.db_cases hs with hdb | ⟨i, th, th', hc, hcom, hdb, hths, hreq, hses⟩
  · refine ⟨?_, ?_, hheeded, ?_⟩
    · rw [hdb]; exact hI.fits
    · rw [hdb]; exact hI.onePerNode
    · intro id j hj hrun hflag
      rw [hdb] at hj
      exact cancelAccepted_step hs (hI.flagged id j hj hrun hflag)
  · refine ⟨?_, ?_, hheeded, ?_⟩
    · rw [hdb]; exact jobsFit_of_committing hcom hI.fits
    · rw [hdb]; exact onePerNode_of_committing hcom (not_occupied_of_committing hcom) hI.onePerNode
    · intro id j' hj' hrun hflag
      rw [hdb] at hj'
      rcases flagged_of_committing hcom hI.fits hj' hrun hflag with
        ⟨event, hcancel⟩ | ⟨j, hj, hrun', hflag'⟩
      · have hlt : i < s.threads.length := (List.getElem?_eq_some_iff.1 hc.1).1
        refine ⟨i, th', event, ?_, hreq ▸ hcancel, ?_⟩
        · rw [hths]
          exact List.getElem?_set_self hlt
        · rw [hses]
          simp [Session.committed]
      · exact cancelAccepted_step hs (hI.flagged id j hj hrun' hflag')

/-- A state of a run of one request at a time. -/
structure Sane (app : App) (s : System) : Prop where
  ok : (serially app).Ok s
  atMostOne : AtMostOne s
  signalled : Signalled s

theorem sane_step {s s' : System} {l : Label Request} (hI : Sane app s)
    (hs : step (controlPlane app) s l = some s') (ht : OneAtATime s l s') : Sane app s' where
  ok := ok_step (platform_valid app _ _) hI.ok hs (kept_of_atMostOne trivial hI.atMostOne)
  atMostOne := atMostOne_step hI.atMostOne hs ht
  signalled := signalled_step hI.ok hI.signalled hs

/-- **Flags and cancels go together** in every state of a run of one request at a time. -/
theorem sane_of_reach {db : Database} (hdb : Quiet db) {clock : Time} {s : System}
    (h : Reach (controlPlane app) OneAtATime (idle db clock) s) : Sane app s := by
  refine h.invariant (Sane app) (fun s l s' => sane_step)
    ⟨ok_of_no_threads rfl, fun i j ti tj hi => by simp [idle] at hi,
      hdb.fits, hdb.onePerNode, fun id hacc => ?_, fun id j hj hrun hflag => ?_⟩
  · obtain ⟨i, th, event, hi, -⟩ := hacc
    simp [idle] at hi
  · rw [hdb.unflagged id j hj hrun] at hflag
    cases hflag

/-- What every commit keeps, in the runs of one request at a time that keep the terms. -/
theorem Sane.later {T : Terms Row Request ApiError Response} {s s' : System}
    (hs : Sane app s) (hT : ∀ s l s', T s l s' → OneAtATime s l s') (I : Database → Prop)
    (hI : ∀ s l s' i th, T s l s' → Commits s l i th →
      (serially app).Committing s.db th.req th.ses.tx → I s.db → I (th.ses.tx.view s.db))
    (h₀ : I s.db) (h : Reach (controlPlane app) T s s') : Sane app s' ∧ I s'.db := by
  refine h.invariant (fun s => Sane app s ∧ I s.db) (fun s l s' hJ hst ht => ?_) ⟨hs, h₀⟩
  refine ⟨sane_step hJ.1 hst (hT s l s' ht), ?_⟩
  rcases hJ.1.ok.db_cases hst with hdb | ⟨i, th, -, hc, hcom, hdb, -⟩
  · rw [hdb]; exact hJ.2
  · rw [hdb]; exact hI s l s' i th ht hc hcom hJ.2

/-! ## The signal -/

/-- A heartbeat of the node may be answered with the cancel of `c`. -/
def Answers (app : App) (s : System) (nodeId : Uuid) (c : Option Uuid) : Prop :=
  ∃ bearer moments t, (served app (.heartbeat bearer nodeId) s.db moments).1 =
    .ok (.heartbeat t c)

/-- The agent of no node completes the job. -/
def NotCompleted (id : Uuid) : Terms Row Request ApiError Response := fun s l s' =>
  OneAtATime s l s' ∧ OnCommits (fun _ _ th => ∀ bearer p, th.req ≠ .completeJob bearer id p) s l s'

/-- What the heartbeats say, in a state and from it on. -/
structure Delivers (app : App) (s : System) : Prop where
  /-- A heartbeat names the job that runs on the node and whose cancel has been accepted. -/
  due : ∀ nodeId c, Answers app s nodeId c → ∀ id, c = some id ↔
    (∃ j, s.db.job id = some j ∧ j.runningOn nodeId = true) ∧ CancelAccepted s id
  /-- Every heartbeat of the node repeats it until the node completes the job. -/
  repeats : ∀ id nodeId j, s.db.job id = some j → j.runningOn nodeId = true →
    CancelAccepted s id → ∀ s', Reach (controlPlane app) (NotCompleted id) s s' →
    ∀ c, Answers app s' nodeId c → c = some id
  /-- No other node is ever told of it. -/
  ownNode : ∀ id nodeId j, s.db.job id = some j → j.runningOn nodeId = true →
    ∀ s', Reach (controlPlane app) OneAtATime s s' →
    ∀ nodeId', Answers app s' nodeId' (some id) → nodeId' = nodeId
  /-- After the completion nobody is told again. -/
  after : ∀ id j, s.db.job id = some j → j.status.isTerminal = true →
    ∀ s', Reach (controlPlane app) OneAtATime s s' → ∀ nodeId, ¬ Answers app s' nodeId (some id)

/-- What a heartbeat answers, by the jobs of the store. -/
theorem answers_iff {s : System} (hone : OnePerNode s.db) {nodeId : Uuid} {c : Option Uuid}
    (h : Answers app s nodeId c) (id : Uuid) : c = some id ↔ ∃ j, s.db.job id = some j ∧
      j.runningOn nodeId = true ∧ j.cancelRequestedAt.isSome = true := by
  obtain ⟨bearer, moments, t, hserved⟩ := h
  obtain ⟨w', hw'⟩ : ∃ w', served app (.heartbeat bearer nodeId) s.db moments =
      (.ok (.heartbeat t c), w') := ⟨_, Prod.ext hserved rfl⟩
  obtain ⟨⟨pick, hc⟩, hjobs⟩ := heartbeat_answers rfl hw'
  have hone' : OnePerNode w'.db := by
    intro id id' j j' nodeId hj hj'
    exact hone id id' j j' nodeId (hjobs id ▸ hj) (hjobs id' ▸ hj')
  rw [hc, cancelTarget_eq_iff hone', hjobs]

/-- **The cancel signal is delivered exactly while it is due**, in every run of one request
at a time. -/
theorem cancel_signal_is_due (app : App) {db : Database} (hdb : Quiet db) (clock : Time)
    {s : System} (h : Reach (controlPlane app) OneAtATime (idle db clock) s) :
    Delivers app s := by
  have hs := sane_of_reach hdb h
  have hsig := hs.signalled
  refine ⟨fun nodeId c hans id => ?_, fun id nodeId j hj hrun hacc s' hr c hans => ?_,
    fun id nodeId j hj hrun s' hr nodeId' hans => ?_, fun id j hj hterm s' hr nodeId hans => ?_⟩
  · rw [answers_iff hsig.onePerNode hans]
    constructor
    · rintro ⟨j, hj, hrun, hflag⟩
      exact ⟨⟨j, hj, hrun⟩, hsig.flagged id j hj (runningOn_iff.1 hrun).2 hflag⟩
    · rintro ⟨⟨j, hj, hrun⟩, hacc⟩
      obtain ⟨j', hj', -, hflag⟩ := hsig.heeded id hacc
      rw [hj, Option.some.injEq] at hj'
      subst hj'
      exact ⟨j, hj, hrun, hflag (runningOn_iff.1 hrun).2⟩
  · obtain ⟨j', hj', -, hflag⟩ := hsig.heeded id hacc
    rw [hj, Option.some.injEq] at hj'
    subst hj'
    obtain ⟨hs', hdue⟩ := hs.later (fun s l s' ht => ht.1)
      (fun d => ∃ j, d.job id = some j ∧ j.runningOn nodeId = true ∧
        j.cancelRequestedAt.isSome = true)
      (fun s l s' i th ht hc hcom hI => by
        obtain ⟨j, hj, hrun, hflag⟩ := hI
        obtain ⟨j', hj', ⟨hrun', hkeeps⟩ | ⟨-, bearer, p, hreq⟩⟩ := running_stays hcom hj hrun
        · exact ⟨j', hj', hrun', hkeeps hflag⟩
        · exact absurd hreq (ht.2 i th hc bearer p))
      ⟨j, hj, hrun, hflag (runningOn_iff.1 hrun).2⟩ hr
    exact (answers_iff hs'.signalled.onePerNode hans id).2 hdue
  · obtain ⟨hs', hdue⟩ := hs.later (fun _ _ _ ht => ht)
      (fun d => ∃ j, d.job id = some j ∧ (j.runningOn nodeId = true ∨ j.status.isTerminal = true))
      (fun s l s' i th ht hc hcom hI => by
        obtain ⟨j, hj, hrun | hterm⟩ := hI
        · obtain ⟨j', hj', ⟨hrun', -⟩ | ⟨hterm, -⟩⟩ := running_stays hcom hj hrun
          · exact ⟨j', hj', Or.inl hrun'⟩
          · exact ⟨j', hj', Or.inr hterm⟩
        · obtain ⟨j', hj', hterm'⟩ := terminal_stays hcom hj hterm
          exact ⟨j', hj', Or.inr hterm'⟩)
      ⟨j, hj, Or.inl hrun⟩ hr
    obtain ⟨j₁, hj₁, hrun₁, -⟩ := (answers_iff hs'.signalled.onePerNode hans id).1 rfl
    obtain ⟨j₂, hj₂, hcases⟩ := hdue
    rw [hj₁, Option.some.injEq] at hj₂
    subst hj₂
    obtain ⟨hnode, hstatus⟩ := runningOn_iff.1 hrun₁
    rcases hcases with hrun₂ | hterm
    · rw [(runningOn_iff.1 hrun₂).1, Option.some.injEq] at hnode
      exact hnode.symm
    · rw [hstatus] at hterm
      cases hterm
  · obtain ⟨hs', j₂, hj₂, hterm'⟩ := hs.later (fun _ _ _ ht => ht)
      (fun d => ∃ j, d.job id = some j ∧ j.status.isTerminal = true)
      (fun s l s' i th ht hc hcom hI => by
        obtain ⟨j, hj, hterm⟩ := hI
        exact terminal_stays hcom hj hterm)
      ⟨j, hj, hterm⟩ hr
    obtain ⟨j₁, hj₁, hrun₁, -⟩ := (answers_iff hs'.signalled.onePerNode hans id).1 rfl
    rw [hj₁, Option.some.injEq] at hj₂
    subst hj₂
    rw [(runningOn_iff.1 hrun₁).2] at hterm'
    cases hterm'

/-- The node claims the job, and its owner cancels it. -/
def cancelledWhileRunning : List (Label Request) :=
  .spawn (.claimJob (some sampleAgentToken)) :: runs 0 11 ++
    .spawn (.cancelJob sampleCaller 3) :: runs 1 10

/-- The clock stands still. -/
def stillMoments : Nat → Moment := fun _ => ⟨0, 0, 0⟩

theorem cancel_signal_is_due_at_cancelledWhileRunning :
    ∃ s, Reach (controlPlane plainApp) OneAtATime (idle queuedDb 0) s ∧
      Answers plainApp s 2 (some 3) ∧ Delivers plainApp s := by
  obtain ⟨s, hs, hanswer⟩ := Option.bind_eq_some_iff.1 (show
    (runWhile (controlPlane plainApp) Sys.idles (idle queuedDb 0) cancelledWhileRunning).bind
      (fun s =>
        (served plainApp (.heartbeat (some sampleAgentToken) 2) s.db stillMoments).1.toOption)
        = some (.heartbeat 0 (some 3)) by decide +kernel)
  have hdb : Quiet queuedDb := by
    refine ⟨fun id j hj => ?_, fun id id' j j' nodeId hj _ hrun _ => ?_, fun id j hj hrun => ?_⟩
    · rw [job_queuedDb hj]
      exact ⟨rfl, rfl, rfl, rfl, rfl, rfl⟩
    · rw [job_queuedDb hj] at hrun
      cases hrun
    · rw [job_queuedDb hj] at hrun
      cases hrun
  have hr := Reach.of_idles hs
  refine ⟨s, hr, ⟨some sampleAgentToken, stillMoments, 0, ?_⟩,
    cancel_signal_is_due plainApp hdb 0 hr⟩
  cases h : (served plainApp (.heartbeat (some sampleAgentToken) 2) s.db stillMoments).1 with
  | error e => rw [h] at hanswer; cases hanswer
  | ok r => rw [h] at hanswer; cases hanswer; rfl

end GpuNetwork
