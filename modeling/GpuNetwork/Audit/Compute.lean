import GpuNetwork.Audit.Replay
import GpuNetwork.Commits.Alone
import GpuNetwork.Jobs.Billing
import GpuNetwork.Jobs.Columns
import Mathlib.Algebra.BigOperators.Group.List.Basic

/-!
# The compute figure of the dashboard

`dashboard` adds up what the jobs that ended in the last day cost, by the times their rows
hold.  `complete_job` bills by a time of its own, which it takes before the one that
`mark_terminal` stores.

* `billedTo`, `billedSince` — what the audit log says was billed.
* `dashboardHours` — what the dashboard says.
* `Balanced` — they agree on every job; every commit keeps it but that of a completion,
  which keeps it when both its times bill the same.
* `dashboard_shows_what_was_billed` — for runs of one request at a time.
-/

namespace GpuNetwork

open ReadCommitted ReadCommitted.Spec

/-! ## The two figures -/

/-- The event is that of a job's end. -/
def isTerminalEvent : Event → Bool
  | .jobCompleted => true
  | .jobFailed => true
  | .jobCancelled => true
  | _ => false

/-- What an audit row says was billed for the job. -/
def AuditLog.billFor (id : Uuid) (a : AuditLog) : Int :=
  if isTerminalEvent a.eventType = true ∧ a.eventData.jobId = some id then
    a.eventData.billedGpuHours.getD 0
  else 0

/-- What the terminal audit rows say was billed for the job. -/
def billedTo (db : Database) (id : Uuid) : Int := (db.events.map (AuditLog.billFor id)).sum

/-- The job ended at the cutoff or later. -/
def Job.endedSince (cutoff : Time) (j : Job) : Bool :=
  j.completedAt.any fun t => decide (cutoff ≤ t)

/-- What was billed for the jobs that ended at the cutoff or later. -/
def billedSince (db : Database) (cutoff : Time) : Int :=
  (((jobsOf db.rows).filter (Job.endedSince cutoff)).map fun j => billedTo db j.id).sum

/-- `gpu_hours_served_24h` of a dashboard that reads the clock at `now`. -/
def dashboardHours (db : Database) (now : Time) : Int :=
  ((jobsOf (matching db (.endedSince [.completed, .failed, .cancelled] (now - day)))).map
    servedHours).sum

variable {app : App} {db : Database} {req : Request} {tx : Transaction}

/-- **The figure of the dashboard**, whose third statement reads the clock. -/
theorem dashboard_figure {caller : Caller} {moments : Nat → Moment} {data : DashboardData}
    (h : (served app (.dashboard caller) db moments).1 = .ok (.dashboard data)) :
    data.gpuHoursServed24h = dashboardHours db (moments 2).now := by
  have hleads : (dashboard app caller).Leads .database { db, moments }
      (fun r _ => ∀ data, r = .dashboard data →
        data.gpuHoursServed24h = dashboardHours db (moments 2).now) (fun _ => True) := by
    refine leads_bind (leads_bind (leads_currentUser (fun _ _ => trivial)
      fun u w hsame hshift _ => ?_))
    have hw : w.ses.tx.writes = [] := hsame.writes
    split
    · refine leads_ret (leads_bind (leads_now (leads_ret ?_)))
      refine leads_bind (leads_list hw fun w₁ h₁ => ?_)
      refine leads_bind (leads_list (h₁.writes.trans hw) fun w₂ h₂ => ?_)
      have h₂ := h₁.trans h₂
      refine leads_bind (leads_list (h₂.writes.trans hw) fun w₃ h₃ => ?_)
      have h₃ := h₂.trans h₃
      refine leads_bind (leads_list (h₃.writes.trans hw) fun w₄ h₄ => ?_)
      have h₄ := h₃.trans h₄
      refine leads_bind (leads_list (h₄.writes.trans hw) fun w₅ h₅ => ?_)
      have h₅ := h₄.trans h₅
      refine leads_bind (leads_list (h₅.writes.trans hw) fun w₆ h₆ => ?_)
      have h₆ := h₅.trans h₆
      refine leads_bind (leads_list (h₆.writes.trans hw) fun w₇ h₇ => leads_ret ?_)
      rintro data ⟨⟩
      have hdb : w₆.db = db := h₆.db.trans hsame.db
      show ((jobsOf (matching w₆.db _)).map servedHours).sum = _
      rw [hdb, hshift 0]
      rfl
    · trivial
  exact hleads.of_ok (Prod.ext h rfl) data rfl

/-! ## The balance -/

/-- What a job that has ended cost, by the times its row holds. -/
def Job.endedHours (j : Job) : Int := if j.status.isTerminal then servedHours j else 0

/-- For every job the log says what its row says. -/
def Balanced (db : Database) : Prop :=
  ∀ id, billedTo db id = ((db.job id).map Job.endedHours).getD 0

theorem job_of_mem_jobsOf {j : Job} (h : j ∈ jobsOf db.rows) : db.job j.id = some j := by
  obtain ⟨r, hr, hj⟩ := List.mem_filterMap.1 h
  cases r with
  | job x => cases hj; exact Db.get_job_iff.1 (Db.get_of_mem hr)
  | _ => cases hj

theorem completed_of_endedSince {j : Job} {cutoff : Time} (h : j.endedSince cutoff = true) :
    j.completedAt.isSome = true := by
  cases hc : j.completedAt with
  | none => simp [Job.endedSince, hc] at h
  | some t => rfl

/-- A job that has a time of completion has ended. -/
theorem terminal_of_completed {j : Job} (hfit : j.Fits db) (h : j.completedAt.isSome = true) :
    j.status.isTerminal = true := by
  unfold Job.Fits at hfit
  cases hs : j.status with
  | queued => rw [hs] at hfit; rw [hfit.2.1] at h; cases h
  | running => rw [hs] at hfit; rw [hfit.2.1] at h; cases h
  | _ => rfl

/-- **Where the books balance, the dashboard shows what was billed.** -/
theorem dashboardHours_eq (hfit : JobsFit db) (hbal : Balanced db) (now : Time) :
    dashboardHours db now = billedSince db (now - day) := by
  have hperm : (jobsOf (matching db
      (.endedSince [.completed, .failed, .cancelled] (now - day)))).Perm
      (jobsOf (db.rows.filter
        (Cond.endedSince [.completed, .failed, .cancelled] (now - day)).holds)) :=
    (List.perm_insertionSort _ _).filterMap _
  have hsame : ∀ rows : List Row, (∀ j ∈ jobsOf rows, j.Fits db) →
      jobsOf (rows.filter (Cond.endedSince [.completed, .failed, .cancelled] (now - day)).holds) =
        (jobsOf rows).filter (Job.endedSince (now - day)) := by
    intro rows hrows
    induction rows with
    | nil => rfl
    | cons r rs ih =>
      cases r with
      | job j =>
        have hj : j.Fits db := hrows j (List.mem_cons_self ..)
        have ih := ih fun x hx => hrows x (List.mem_cons_of_mem _ hx)
        have hholds : (Cond.endedSince [.completed, .failed, .cancelled] (now - day)).holds (.job j)
            = j.endedSince (now - day) := by
          show ([JobStatus.completed, .failed, .cancelled].contains j.status &&
            j.endedSince (now - day)) = _
          cases hended : j.endedSince (now - day) with
          | false => simp
          | true =>
            have hsome : j.completedAt.isSome = true := completed_of_endedSince hended
            have hterm := terminal_of_completed hj hsome
            cases hs : j.status <;> simp_all [JobStatus.isTerminal]
        show jobsOf (List.filter _ (Row.job j :: rs)) = List.filter _ (j :: jobsOf rs)
        rw [List.filter_cons, List.filter_cons, hholds, ← ih]
        cases j.endedSince (now - day) with
        | false => rfl
        | true => rfl
      | _ => exact ih hrows
  unfold dashboardHours billedSince
  rw [(hperm.map _).sum_eq, hsame _ fun j hj => hfit j.id j (job_of_mem_jobsOf hj)]
  congr 1
  refine List.map_congr_left fun j hj => ?_
  obtain ⟨hmem, hended⟩ := List.mem_filter.1 hj
  have hjob := job_of_mem_jobsOf hmem
  rw [hbal, hjob, Option.map_some, Option.getD_some, Job.endedHours,
    if_pos (terminal_of_completed (hfit j.id j hjob) (completed_of_endedSince hended))]

/-! ## One commit -/

/-- The audit row does not say that anything was billed. -/
def AuditLog.billsNothing (a : AuditLog) : Prop :=
  isTerminalEvent a.eventType = false ∨ a.eventData.billedGpuHours = none

/-- **What a commit adds to the audit log**: at most one row, which bills nothing unless
it is that of a completion. -/
theorem events_of_committing (h : (serially app).Committing db req tx) :
    (tx.view db).events = db.events ∨ ∃ a, (tx.view db).events = db.events ++ [a] ∧
      (a.billsNothing ∨ IsCompletion req) := by
  have hnone : (∀ w ∈ tx.writes, OffLog w) → (tx.view db).events = db.events ∨
      ∃ a, (tx.view db).events = db.events ++ [a] ∧ (a.billsNothing ∨ IsCompletion req) :=
    fun hoff => Or.inl (events_unlogged hoff)
  have hone : ∀ {p q : List (Write Row Key)} {a : AuditLog},
      tx.writes = p ++ .insert (.auditLog a) :: q → (∀ w ∈ p, OffLog w) → (∀ w ∈ q, OffLog w) →
      tx.Fresh (.auditLog a.id) → (a.billsNothing ∨ IsCompletion req) →
      (tx.view db).events = db.events ∨
      ∃ a, (tx.view db).events = db.events ++ [a] ∧ (a.billsNothing ∨ IsCompletion req) :=
    fun hw hp hq hfresh hbills => Or.inr ⟨_, events_logged hw hp hq (h.get_of_fresh hfresh), hbills⟩
  -- the row comes last, after `p`
  have hlast : ∀ {p : List (Write Row Key)} {a : AuditLog},
      tx.writes = p ++ [.insert (.auditLog a)] → (∀ w ∈ p, OffLog w) →
      tx.Fresh (.auditLog a.id) → a.billsNothing → (tx.view db).events = db.events ∨
      ∃ a, (tx.view db).events = db.events ++ [a] ∧ (a.billsNothing ∨ IsCompletion req) :=
    fun hw hp hfresh hbills => hone hw hp (by simp) hfresh (Or.inl hbills)
  cases h.shape with
  | aside ha =>
    cases ha with
    | login hw hfresh hevent =>
      refine hlast (p := []) hw (by simp) hfresh (Or.inl ?_)
      rcases hevent with he | he <;> rw [he] <;> rfl
    | listAuditEvents hw hfresh hevent =>
      exact hlast (p := []) hw (by simp) hfresh (Or.inl (by rw [hevent]; rfl))
    | generateKey hw hfresh hevent =>
      exact hlast (p := [.insert (.apiKey _)]) hw (by simp [OffLog, Write.target, Row.key]) hfresh
        (Or.inl (by rw [hevent]; rfl))
    | revokeKey hw hfresh hevent =>
      exact hlast (p := [.update (.apiKey _) (.apiKey _)]) hw
        (by simp [OffLog, Write.target, Row.key]) hfresh (Or.inl (by rw [hevent]; rfl))
    | createClaimToken hw hc hfresh hevent =>
      exact hlast (p := [.insert (.claimToken _)]) hw (by simp [OffLog, Write.target, Row.key])
        hfresh (Or.inl (by rw [hevent]; rfl))
    | pushLogs hn hread hassign hw hlogs hseq =>
      refine hnone fun w hm id => ?_
      rw [hw] at hm
      obtain ⟨l, -, rfl⟩ := List.mem_map.1 hm
      simp [Write.target, Row.key]
  | signup hw hu hfresh hlogs =>
    exact hlast (p := [.insert (.user _)]) hw (by simp [OffLog, Write.target, Row.key])
      hlogs.fresh (Or.inr (by rw [hlogs.data]))
  | sets hs hid hu hf hw hflush hlogs =>
    refine hlast hw (fun w hm id => ?_) hlogs.fresh (Or.inr ?_)
    · rw [target_of_mem_flushed hm]; simp [Row.key]
    · rw [hlogs.data]
      cases hs <;> rfl
  | registerNode hread hcheck hconsumed huser hgpu hstatus hfresh hfound hw hlogs =>
    exact hlast (p := [.insert (.node _), .update (.claimToken _) (.claimToken _)]) hw
      (by simp [OffLog, Write.target, Row.key]) hlogs.fresh (Or.inr (by rw [hlogs.data]))
  | heartbeat hn hid hw =>
    refine hnone fun w hm id => ?_
    rw [hw] at hm
    rw [target_of_mem_flushed hm]; simp [Row.key]
  | pushMetrics hn hid hups hw =>
    refine hnone fun w hm id => ?_
    rw [hw] at hm
    rcases List.mem_append.1 hm with hm | hm
    · obtain ⟨g, hg⟩ := hups w hm
      rw [hg]; simp
    · rw [target_of_mem_flushed hm]; simp [Row.key]
  | drain hd hread hstatus hfound hw hlogs =>
    exact hlast (p := [.update (.node _) (.node _)]) hw (by simp [OffLog, Write.target, Row.key])
      hlogs.fresh (Or.inr (by rw [hlogs.data]))
  | drained hd hread hstatus hw => exact hnone (by rw [hw]; simp)
  | undrain hread hstatus hfound hw hlogs =>
    exact hlast (p := [.update (.node _) (.node _)]) hw (by simp [OffLog, Write.target, Row.key])
      hlogs.fresh (Or.inr (by rw [hlogs.data]))
  | deleteNode hread hmiss he hv hlocks hw hlogs =>
    exact hone (p := []) hw (by simp) (fun w hm => (target_of_deletion hm).2) hlogs.fresh
      (Or.inl (Or.inr (by rw [hlogs.data])))
  | deletedNode hread he hstmt hnone' hw hlogs =>
    exact hlast (p := []) hw (by simp) hlogs.fresh (Or.inr (by rw [hlogs.data]))
  | submitJob hu hact hcost hj hfresh hw hlogs =>
    exact hlast (p := [.insert (.job _)]) hw (by simp [OffLog, Write.target, Row.key])
      hlogs.fresh (Or.inr (by rw [hlogs.data]))
  | claimJob hn hdrain hmiss hlock hfound hw hlogs =>
    exact hlast (p := [.update (.job _) (.job _)]) hw (by simp [OffLog, Write.target, Row.key])
      hlogs.fresh (Or.inr (by rw [hlogs.data]))
  | completeJob hn hread hassign hallowed hhours howner hfound hw hlogs =>
    rename_i bearer id p n j completedAt now owner hours a
    refine hone (p := .update (.job j) _ :: billWrites hours owner) hw (fun w hm k => ?_) (by simp)
      hlogs.fresh (Or.inr ⟨_, _, _, rfl⟩)
    rcases List.mem_cons.1 hm with rfl | hm
    · simp [Write.target, Row.key]
    · obtain ⟨uid, hu⟩ := target_of_mem_billWrites hm
      rw [hu]; simp
  | cancelQueued hc hread hstatus hfound hw hlogs =>
    exact hlast (p := [.update (.job _) (.job _)]) hw (by simp [OffLog, Write.target, Row.key])
      hlogs.fresh (Or.inr (by rw [hlogs.data]))
  | requestCancel hc hread hstatus hreq hfound hw hlogs =>
    exact hlast (p := [.update (.job _) (.job _)]) hw (by simp [OffLog, Write.target, Row.key])
      hlogs.fresh (Or.inr (by rw [hlogs.data]))
  | cancelAgain hc hread hstatus hreq hw hlogs =>
    exact hlast (p := []) hw (by simp) hlogs.fresh (Or.inr (by rw [hlogs.data]))

theorem billFor_of_billsNothing {a : AuditLog} (h : a.billsNothing) (id : Uuid) :
    a.billFor id = 0 := by
  unfold AuditLog.billFor
  split
  · rename_i hterm
    rcases h with he | he
    · rw [he] at hterm; cases hterm.1
    · rw [he]; rfl
  · rfl

theorem billedTo_logged {db' : Database} {a : AuditLog} (h : db'.events = db.events ++ [a])
    (id : Uuid) : billedTo db' id = billedTo db id + a.billFor id := by
  simp [billedTo, h]

/-- **A commit that completes no job keeps the balance.** -/
theorem balanced_of_committing (h : (serially app).Committing db req tx) (hfit : JobsFit db)
    (hreq : ¬ IsCompletion req) (hbal : Balanced db) : Balanced (tx.view db) := by
  intro id
  have hlog : billedTo (tx.view db) id = billedTo db id := by
    rcases events_of_committing h with he | ⟨a, he, hbills | hcomp⟩
    · rw [billedTo, he]; rfl
    · rw [billedTo_logged he, billFor_of_billsNothing hbills, add_zero]
    · exact absurd hcomp hreq
  rw [hlog, hbal id]
  have hstep := job_step h id
  generalize hb : db.job id = o at hstep
  generalize (tx.view db).job id = o' at hstep
  cases hstep with
  | same => rfl
  | submitted _ hu hid hj => rw [hj]; rfl
  | claimed _ hn hdrain hmiss hclaim hfound hw =>
    simp [Job.endedHours, Job.claimedBy, status_of_claimable hclaim, JobStatus.isTerminal]
  | completed hcomp => exact absurd ⟨_, _, _, hcomp⟩ hreq
  | cancelled hc hread hq hw =>
    rename_i event old cur now
    have hcur := job_of_read h.toSince hread
    rw [id_of_read_job hread, hb, Option.some.injEq] at hcur
    subst hcur
    rw [merge_terminated]
    -- a job in the queue has not started
    have hqueued := hfit id _ hb
    unfold Job.Fits at hqueued
    rw [hq] at hqueued
    simp [Job.endedHours, Job.terminated, servedHours, hqueued.1, hq, JobStatus.isTerminal]
  | cancelRequested hc hread hr hnone hw =>
    simp [Job.endedHours, servedHours, Job.merge, Job.cancelRequested]
  | nodeDeleted _ hmiss hw => rfl

/-! ## Completions -/

/-- A completion of the job `j` has committed the transaction `tx`: the bill is by the clock
of the third statement, the row by that of the fifth. -/
structure CompletedBy (app : App) (db : Database) (bearer : Option Str) (id : Uuid)
    (p : CompleteJobRequest) (moments : Nat → Moment) (tx : Transaction) (n : Node) (j : Job)
    (hours : Int) (owner : Option User) (a : AuditLog) : Prop where
  agent : AgentOf app db bearer n
  stored : db.job id = some j
  assigned : j.assignedNodeId = some n.id
  hours_eq : hours = billGpuHours (j.startedAt.getD (moments 2).now) (moments 2).now j.gpuCount
  writes : tx.writes = .update (.job j) (.job (j.terminated (completionTarget j p.exitCode)
      (some p.exitCode) p.errorMessage (moments 4).now)) ::
    (billWrites hours owner ++ [.insert (.auditLog a)])
  event : a.eventType = terminalEvent (completionTarget j p.exitCode)
  data : a.eventData =
    { jobId := some j.id, nodeId := some n.id, exitCode := some p.exitCode,
      billedGpuHours := some hours, errorMessage := p.errorMessage }

/-- What a completion that is served alone has committed, if anything. -/
def Completion (app : App) (db : Database) (bearer : Option Str) (id : Uuid)
    (p : CompleteJobRequest) (moments : Nat → Moment) (past : List Transaction) : Prop :=
  past = [] ∨ ∃ tx n j hours owner a, past = [tx] ∧
    CompletedBy app db bearer id p moments tx n j hours owner a

/-- The flush of the owner's balance. -/
theorem leads_flushBill {hours : Int} {owner : Option User} {w : Scene} {Q : Unit → Scene → Prop}
    {E : Scene → Prop} (hE : ∀ w', w'.db = w.db → w'.ses.past = w.ses.past → E w')
    (h : ∀ w', w.Adds w' (billWrites hours owner) → Q () w') :
    (flushBill hours owner).Leads .database w Q E := by
  cases owner with
  | none => exact h w ⟨rfl, (List.append_nil _).symm, rfl⟩
  | some u => exact leads_flush hE h

/-- **A completion that is served alone.** -/
theorem completion_of_served {bearer : Option Str} {id : Uuid} {p : CompleteJobRequest}
    {moments : Nat → Moment} {res : Except ApiError Response} {w' : Scene}
    (h : served app (.completeJob bearer id p) db moments = (res, w')) :
    Completion app db bearer id p moments w'.ses.past := by
  have hleads : (completeJob app bearer id p).Leads .database { db, moments }
      (fun _ w' => Completion app db bearer id p moments w'.ses.past)
      (fun w' => Completion app db bearer id p moments w'.ses.past) := by
    have hnot : ∀ {w' : Scene}, w'.ses.past = [] →
        Completion app db bearer id p moments w'.ses.past := fun h => Or.inl h
    refine leads_bind (leads_currentNode (fun w₁ h₁ => hnot h₁.past)
      fun n w₁ h₁ hshift hagent => ?_)
    have hw₁ : w₁.ses.tx.writes = [] := h₁.writes
    refine leads_bind (leads_bind (leads_getJobById ?_))
    rw [h₁.view]
    cases hj : (({ db, moments } : Scene).ses.tx.view db).job id with
    | none => exact hnot h₁.past
    | some j =>
      dsimp only
      split
      · exact hnot h₁.past
      rename_i hassign
      rw [ne_eq, not_not] at hassign
      refine leads_bind ?_
      unfold assertTransition
      split
      · rename_i hallowed
        refine leads_ret (leads_bind (leads_now (leads_ret (leads_bind (leads_getUserById ?_)))))
        -- the first reading of the clock is for the bill
        have hfirst : (w₁.reads (.select (.byKey (.job id)))).moments 0 = moments 2 := hshift 1
        rw [hfirst]
        refine leads_bind (leads_now (leads_ret (leads_bind (leads_flush (fun w _ hp => hnot
          (hp.trans h₁.past)) fun w₂ h₂ => ?_))))
        -- the second is for the row
        have hsecond : w₁.moments 3 = moments 4 := hshift 3
        have hsame := (((w₁.same_reads (.select (.byKey (.job id)))).trans
          (World.same_next _)).trans (World.same_reads _ (.select (.byKey (.user j.userId))))).trans
          (World.same_next _)
        have h₂ : w₁.Adds w₂ (flushed (.job j) (.job (j.terminated
            (completionTarget j p.exitCode) (some p.exitCode) p.errorMessage
            (w₁.moments 3).now))) := hsame.adds h₂
        rw [hsecond, flushed, if_neg (Job.terminated_ne (isTerminal_completionTarget j _)
          (isTerminal_of_allowed hallowed) _ _ _)] at h₂
        generalize Db.user _ j.userId = owner
        refine leads_bind (leads_flushBill (fun w _ hp => hnot
          (hp.trans (h₂.past.trans h₁.past))) fun w₃ h₃ => ?_)
        have h₃ := h₂.trans h₃
        refine leads_bind (leads_createAudit (fun w _ hp => hnot
          (hp.trans (h₃.past.trans h₁.past))) fun w₄ a hevent huser hdata h₄ => ?_)
        have h₄ := h₃.trans h₄
        refine leads_bind (leads_commitTx fun w₅ hdb₅ hp₅ htx₅ => ?_)
        have hdone : Completion app db bearer id p moments w₅.ses.past := by
          refine Or.inr ⟨w₄.ses.tx, n, j, _, owner, a, ?_, hagent, hj, hassign, rfl, ?_, hevent,
            hdata⟩
          · rw [hp₅, h₄.past, h₁.past]; rfl
          · rw [h₄.writes, hw₁]; rfl
        exact leads_of_reads (reads_refreshJob _) (fun x w₆ h₆ _ => leads_ret (h₆.past ▸ hdone))
          fun w₆ h₆ => h₆.past ▸ hdone
      · exact hnot h₁.past
  unfold Prog.Leads at hleads
  rw [show (completeJob app bearer id p).alone .database { db, moments } = (res, w') from h]
    at hleads
  cases res with
  | ok r => exact hleads
  | error e => exact hleads

theorem isTerminalEvent_terminalEvent (j : Job) (exitCode : Int) :
    isTerminalEvent (terminalEvent (completionTarget j exitCode)) = true := by
  rcases completionTarget_cases j exitCode with ht | ht | ht <;> rw [ht] <;> rfl

/-- What the audit log of a completion says. -/
theorem events_of_completedBy {bearer : Option Str} {id : Uuid} {p : CompleteJobRequest}
    {moments : Nat → Moment} {n : Node} {j : Job} {hours : Int} {owner : Option User}
    {a : AuditLog} (h : (serially app).Committing db (.completeJob bearer id p) tx)
    (hc : CompletedBy app db bearer id p moments tx n j hours owner a) :
    (tx.view db).events = db.events ++ [a] := by
  obtain ⟨_, _, _, _, owner', _, a', -, -, -, -, -, -, -, hw, hlogs⟩ := shape_of_completeJob h.shape
  have hrest := (List.cons.inj (hc.writes.symm.trans hw)).2
  have ha : a = a' := by
    simpa using List.append_inj_right' hrest rfl
  have hfresh : tx.Fresh (.auditLog a.id) := ha ▸ hlogs.fresh
  refine events_logged (p := .update (.job j) _ :: billWrites hours owner) (q := []) hc.writes
    (fun w hm k => ?_) (by simp) (h.get_of_fresh hfresh)
  rcases List.mem_cons.1 hm with rfl | hm
  · simp [Write.target, Row.key]
  · obtain ⟨uid, hu⟩ := target_of_mem_billWrites hm
    rw [hu]; simp

/-- What a completion leaves of the job it reports. -/
theorem job_of_completedBy {bearer : Option Str} {id : Uuid} {p : CompleteJobRequest}
    {moments : Nat → Moment} {n : Node} {j : Job} {hours : Int} {owner : Option User}
    {a : AuditLog} (h : (serially app).Committing db (.completeJob bearer id p) tx)
    (hc : CompletedBy app db bearer id p moments tx n j hours owner a) :
    (j.status, completionTarget j p.exitCode) ∈ allowedTransitions ∧
    ∀ k, (tx.view db).job k = if k = id then
      some (j.terminated (completionTarget j p.exitCode) (some p.exitCode) p.errorMessage
        (moments 4).now) else db.job k := by
  obtain ⟨_, _, _, _, _, _, _, -, -, -, hallowed, -, -, -, hw, -⟩ := shape_of_completeJob h.shape
  obtain ⟨hfirst, -⟩ := List.cons.inj (hc.writes.symm.trans hw)
  cases hfirst
  refine ⟨hallowed, fun k => ?_⟩
  have hid : j.id = id := Db.id_of_job hc.stored
  rw [job_view_update hc.writes target_of_mem_bill, hid]
  by_cases hk : id = k
  · subst hk
    rw [if_pos rfl, if_pos rfl, hc.stored, Option.map_some, merge_terminated]
  · rw [if_neg hk, if_neg (Ne.symm hk)]

/-- If the request is an agent's report on a job that runs, the job's bill is the same by the
third statement's reading of the clock as by the fifth's. -/
def BillsAlike (app : App) (db : Database) (c : Call) : Prop :=
  ∀ bearer id p, c.req = .completeJob bearer id p → ∀ n j t, AgentOf app db bearer n →
    db.job id = some j → j.assignedNodeId = some n.id → j.status = .running →
    j.startedAt = some t →
    billGpuHours t (c.moments 2).now j.gpuCount = billGpuHours t (c.moments 4).now j.gpuCount

theorem endedHours_running {j : Job} (h : j.status = .running) : j.endedHours = 0 := by
  simp [Job.endedHours, h, JobStatus.isTerminal]

theorem endedHours_terminated {j : Job} {status : JobStatus} {exitCode : Option Int}
    {message : Option Str} {t now : Time} (h : status.isTerminal = true)
    (ht : j.startedAt = some t) :
    (j.terminated status exitCode message now).endedHours = billGpuHours t now j.gpuCount := by
  have hstatus : (j.terminated status exitCode message now).status.isTerminal = true := h
  rw [Job.endedHours, if_pos hstatus]
  simp [servedHours, Job.terminated, ht]

/-- **A completion whose two readings of the clock bill the same keeps the balance.** -/
theorem balanced_of_completedBy {bearer : Option Str} {id : Uuid} {p : CompleteJobRequest}
    {moments : Nat → Moment} {n : Node} {j : Job} {hours : Int} {owner : Option User}
    {a : AuditLog} (h : (serially app).Committing db (.completeJob bearer id p) tx)
    (hc : CompletedBy app db bearer id p moments tx n j hours owner a) (hfit : JobsFit db)
    (hbal : Balanced db) (halike : BillsAlike app db ⟨.completeJob bearer id p, moments⟩) :
    Balanced (tx.view db) := by
  obtain ⟨hallowed, hjobs⟩ := job_of_completedBy h hc
  have hrun : j.status = .running := running_of_allowed (hfit id j hc.stored) hc.assigned hallowed
  obtain ⟨t, ht⟩ : ∃ t, j.startedAt = some t := by
    have hj := hfit id j hc.stored
    unfold Job.Fits at hj
    rw [hrun] at hj
    exact Option.isSome_iff_exists.1 hj.1
  intro k
  rw [billedTo_logged (events_of_completedBy h hc), hbal k, hjobs k, AuditLog.billFor, hc.event,
    isTerminalEvent_terminalEvent, hc.data, Db.id_of_job hc.stored]
  by_cases hk : k = id
  · subst hk
    have hsame := halike bearer k p rfl n j t hc.agent hc.stored hc.assigned hrun ht
    have hhours : hours = billGpuHours t (moments 4).now j.gpuCount := by
      rw [hc.hours_eq, ht, Option.getD_some, hsame]
    rw [if_pos ⟨rfl, rfl⟩, if_pos rfl, hc.stored, hhours]
    simp [endedHours_running hrun, endedHours_terminated (isTerminal_completionTarget j _) ht]
  · have hne : ¬ (true = true ∧ some id = some k) := fun he => hk (Option.some.inj he.2).symm
    rw [if_neg hk, if_neg hne, add_zero]

/-- **A request that is served alone keeps the balance**, and the columns of the jobs. -/
theorem balanced_of_served {c : Call} (hfit : JobsFit db) (hbal : Balanced db)
    (halike : BillsAlike app db c) :
    JobsFit (served app c.req db c.moments).2.db ∧
      Balanced (served app c.req db c.moments).2.db := by
  obtain ⟨req, moments⟩ := c
  have hall := commits_of_served (rfl : served app req db moments = (_, _))
  by_cases hreq : IsCompletion req
  · obtain ⟨bearer, id, p, rfl⟩ := hreq
    rcases completion_of_served (rfl : served app _ db moments = (_, _)) with
      hpast | ⟨tx, n, j, hours, owner, a, hpast, hc⟩
    · rw [hpast] at hall
      rw [show (served app (.completeJob bearer id p) db moments).2.db = db from hall]
      exact ⟨hfit, hbal⟩
    · rw [hpast] at hall
      obtain ⟨hcommit, hdb⟩ := hall
      rw [show (served app (.completeJob bearer id p) db moments).2.db = tx.view db from hdb]
      exact ⟨jobsFit_of_committing hcommit hfit,
        balanced_of_completedBy hcommit hc hfit hbal halike⟩
  · exact hall.keeps (I := fun db => JobsFit db ∧ Balanced db) (fun a tx hcommit hI =>
      ⟨jobsFit_of_committing hcommit hI.1, balanced_of_committing hcommit hI.1 hreq hI.2⟩)
      ⟨hfit, hbal⟩

/-! ## Runs -/

/-- Each request bills alike when its turn comes. -/
def AllAlike (app : App) : Database → List Call → Prop
  | _, [] => True
  | db, c :: cs => BillsAlike app db c ∧ AllAlike app (served app c.req db c.moments).2.db cs

theorem balanced_of_serveAll {calls : List Call} (hfit : JobsFit db) (hbal : Balanced db)
    (halike : AllAlike app db calls) :
    JobsFit (serveAll app db calls) ∧ Balanced (serveAll app db calls) := by
  induction calls generalizing db with
  | nil => exact ⟨hfit, hbal⟩
  | cons c cs ih =>
    obtain ⟨hfit', hbal'⟩ := balanced_of_served hfit hbal halike.1
    exact ih hfit' hbal' halike.2

/-- **The dashboard shows what was billed** for the jobs that ended in the last day, after
requests that were served one at a time, provided that no completion was billed by one hour
and stored with another. -/
theorem dashboard_shows_what_was_billed {app : App} {db : Database} (hfit : JobsFit db)
    (hbal : Balanced db) {calls : List Call} (halike : AllAlike app db calls) {caller : Caller}
    {moments : Nat → Moment} {data : DashboardData}
    (h : (served app (.dashboard caller) (serveAll app db calls) moments).1 =
      .ok (.dashboard data)) :
    data.gpuHoursServed24h = billedSince (serveAll app db calls) ((moments 2).now - day) := by
  obtain ⟨hfit', hbal'⟩ := balanced_of_serveAll hfit hbal halike
  rw [dashboard_figure h, dashboardHours_eq hfit' hbal']

/-- An administrator's node with a job in the queue. -/
def adminDb : Database :=
  ((Db.empty.insert (.user { sampleUser with isAdmin := true })).insert (.node sampleNode)).insert
    (.job sampleJob)

/-- The first four statements are at one time, the others at another. -/
def twoTimes (first later : Time) (pick : Nat) (n : Nat) : Moment :=
  if n < 4 then ⟨first, first, pick⟩ else ⟨later, later, pick⟩

/-- The node claims the job, and reports it an hour later; the completion is stored at
`later`. -/
def reportedCalls (later : Time) : List Call :=
  [⟨.claimJob (some sampleAgentToken), twoTimes 0 0 10⟩,
    ⟨.completeJob (some sampleAgentToken) 3 exitZero, twoTimes gpuHour later 11⟩]

/-- What the dashboard shows then, and what was billed. -/
def figures (app : App) (db : Database) (now : Time) : Option (Int × Int) :=
  match (served app (.dashboard sampleCaller) db (twoTimes now now 12)).1 with
  | .ok (.dashboard data) => some (data.gpuHoursServed24h, billedSince db (now - day))
  | _ => none

theorem figures_eq_some {now : Time} {shown billed : Int}
    (h : figures app db now = some (shown, billed)) :
    ∃ data, (served app (.dashboard sampleCaller) db (twoTimes now now 12)).1 =
        .ok (.dashboard data) ∧ data.gpuHoursServed24h = shown ∧
      billedSince db (now - day) = billed := by
  unfold figures at h
  split at h
  · rename_i data hdata
    cases h
    exact ⟨data, hdata, rfl, rfl⟩
  · cases h

theorem balanced_adminDb : JobsFit adminDb ∧ Balanced adminDb := by
  have hrows : adminDb.rows = [.user { sampleUser with isAdmin := true }, .node sampleNode,
      .job sampleJob] := by decide +kernel
  have hjob : ∀ id j, adminDb.job id = some j → j = sampleJob := by
    intro id j hj
    have hmem := Db.mem_of_get (Db.get_job_iff.2 hj)
    simpa [hrows] using hmem
  constructor
  · intro id j hj
    rw [hjob id j hj]
    exact ⟨rfl, rfl, rfl, rfl, rfl, rfl⟩
  · intro id
    have hnone : billedTo adminDb id = 0 := by
      rw [billedTo, Db.events, hrows]
      rfl
    rw [hnone]
    cases hj : adminDb.job id with
    | none => rfl
    | some j => rw [hjob id j hj]; rfl

theorem dashboard_shows_what_was_billed_at_reportedCalls :
    ∃ data, (served plainApp (.dashboard sampleCaller)
        (serveAll plainApp adminDb (reportedCalls gpuHour)) (twoTimes gpuHour gpuHour 12)).1 =
        .ok (.dashboard data) ∧ data.gpuHoursServed24h = 1 ∧
      data.gpuHoursServed24h =
        billedSince (serveAll plainApp adminDb (reportedCalls gpuHour)) (gpuHour - day) := by
  obtain ⟨data, hserved, hone, -⟩ := figures_eq_some (show figures plainApp
    (serveAll plainApp adminDb (reportedCalls gpuHour)) gpuHour = some (1, 1) by decide +kernel)
  have halike : AllAlike plainApp adminDb (reportedCalls gpuHour) := by
    refine ⟨fun bearer id p hreq => ?_, fun bearer id p hreq => ?_, trivial⟩
    · cases hreq
    · intro n j t _ _ _ _ _
      rfl
  exact ⟨data, hserved, hone, dashboard_shows_what_was_billed balanced_adminDb.1
    balanced_adminDb.2 halike hserved⟩

/-- The requests come one after the other, and the clock never goes back. -/
structure OneAfterTheOther (calls : List Call) : Prop where
  forward : ∀ c ∈ calls, ∀ m n, m ≤ n → (c.moments m).now ≤ (c.moments n).now
  order : calls.Pairwise fun c d => ∀ m n, (c.moments m).now ≤ (d.moments n).now

theorem twoTimes_mono {first later : Time} (h : first ≤ later) (pick : Nat) {m n : Nat}
    (hmn : m ≤ n) : (twoTimes first later pick m).now ≤ (twoTimes first later pick n).now := by
  unfold twoTimes
  split
  · split
    · exact le_rfl
    · exact h
  · rw [if_neg (by omega)]

theorem twoTimes_between {first later : Time} (h : first ≤ later) (pick n : Nat) :
    first ≤ (twoTimes first later pick n).now ∧ (twoTimes first later pick n).now ≤ later := by
  unfold twoTimes
  split
  · exact ⟨le_rfl, h⟩
  · exact ⟨h, le_rfl⟩

/-- **The dashboard can show an hour more than was billed**: the completion is billed at the
end of an hour, and stored just after. -/
theorem dashboard_shows_an_unbilled_hour :
    ¬ ∀ (calls : List Call) (caller : Caller) (moments : Nat → Moment) (data : DashboardData),
      OneAfterTheOther (calls ++ [⟨.dashboard caller, moments⟩]) →
      (served plainApp (.dashboard caller) (serveAll plainApp adminDb calls) moments).1 =
        .ok (.dashboard data) →
      data.gpuHoursServed24h = billedSince (serveAll plainApp adminDb calls)
        ((moments 2).now - day) := by
  intro h
  obtain ⟨data, hserved, hshown, hbilled⟩ := figures_eq_some (show figures plainApp
    (serveAll plainApp adminDb (reportedCalls (gpuHour + 1))) (gpuHour + 1) = some (2, 1) by
      decide +kernel)
  have horder : OneAfterTheOther (reportedCalls (gpuHour + 1) ++
      [⟨.dashboard sampleCaller, twoTimes (gpuHour + 1) (gpuHour + 1) 12⟩]) := by
    have hlate : gpuHour ≤ gpuHour + 1 := by decide
    constructor
    · intro c hc m n hmn
      simp only [reportedCalls, List.cons_append, List.nil_append, List.mem_cons,
        List.not_mem_nil, or_false] at hc
      rcases hc with rfl | rfl | rfl
      · exact twoTimes_mono le_rfl _ hmn
      · exact twoTimes_mono hlate _ hmn
      · exact twoTimes_mono le_rfl _ hmn
    · have hzero : ∀ n, (twoTimes 0 0 10 n).now ≤ 0 := fun n => (twoTimes_between le_rfl 10 n).2
      refine .cons ?_ (.cons ?_ (.cons (by simp) .nil))
      · intro d hd m n
        rcases List.mem_cons.1 hd with rfl | hd
        · exact (hzero m).trans ((by decide : (0 : Int) ≤ gpuHour).trans
            (twoTimes_between hlate 11 n).1)
        · cases List.mem_singleton.1 hd
          exact (hzero m).trans ((by decide : (0 : Int) ≤ gpuHour + 1).trans
            (twoTimes_between le_rfl 12 n).1)
      · intro d hd m n
        cases List.mem_singleton.1 hd
        exact (twoTimes_between hlate 11 m).2.trans (twoTimes_between le_rfl 12 n).1
  have he := h _ _ _ _ horder hserved
  rw [hshown, show (twoTimes (gpuHour + 1) (gpuHour + 1) 12 2).now = gpuHour + 1 from rfl,
    hbilled] at he
  cases he

end GpuNetwork
