import GpuNetwork.Commits.Effects

/-!
# The job state machine

The statuses of the jobs over runs in which any requests interleave.  Every handler
checks the transition against the status it has read; what it writes is checked against
nothing.

* `Onward` — no job becomes queued again, and none goes away; every commit is onward.
* `Overtaken` — the job a transaction is about to finish has been finished meanwhile.
* `StatusesLegal` — a step changes statuses only as `allowedTransitions` says.
-/

namespace GpuNetwork

open ReadCommitted ReadCommitted.Spec

/-! ## Jobs only move on -/

/-- Every job is still there, and queued only if it was. -/
def Onward (a b : Database) : Prop :=
  ∀ id j, a.job id = some j →
    ∃ j', b.job id = some j' ∧ (j'.status = .queued → j.status = .queued)

/-- The specification under which nothing but the handlers themselves is counted on. -/
def onward (app : App) : Spec Row Key Cond Request ApiError Response :=
  platform app (fun _ _ a b => Onward a b) True

/-- A status that an update writes. -/
theorem status_merge_terminated {old cur : Job} {status : JobStatus} {exitCode : Option Int}
    {message : Option Str} {now : Time} (h : status ≠ old.status) :
    (old.merge (old.terminated status exitCode message now) cur).status = status := by
  simp [Job.merge, Job.terminated, col_of_ne h]

theorem completionTarget_ne_queued (j : Job) (exitCode : Int) :
    completionTarget j exitCode ≠ .queued := by
  intro h
  have hterm := isTerminal_completionTarget j exitCode
  rw [h] at hterm
  cases hterm

theorem ne_of_allowed {a b : JobStatus} (h : (a, b) ∈ allowedTransitions) : b ≠ a := by
  cases a <;> cases b <;> simp_all [allowedTransitions]

variable {app : App} {rely : Rely} {refusals : Prop} {db : Database} {req : Request}
  {tx : Transaction}

/-- **Every commit is onward**, whatever the transaction had read. -/
theorem onward_of_committing (h : (platform app rely refusals).Committing db req tx) :
    Onward db (tx.view db) := by
  intro id j hj
  have hstep := job_step h id
  rw [hj] at hstep
  generalize (tx.view db).job id = o at hstep
  cases hstep with
  | same => exact ⟨j, rfl, fun hq => hq⟩
  | claimed _ _ _ _ hclaim _ _ => exact ⟨_, rfl, fun hq => by cases hq⟩
  | completed _ _ _ _ hallowed _ =>
    refine ⟨_, rfl, fun hq => ?_⟩
    rw [status_merge_terminated (ne_of_allowed hallowed)] at hq
    exact absurd hq (completionTarget_ne_queued _ _)
  | cancelled _ _ hstatus _ =>
    refine ⟨_, rfl, fun hq => ?_⟩
    rw [status_merge_terminated (by rw [hstatus]; simp)] at hq
    cases hq
  | cancelRequested _ _ _ _ _ =>
    refine ⟨_, rfl, fun hq => ?_⟩
    simpa [Job.merge, Job.cancelRequested] using hq
  | nodeDeleted _ _ _ => exact ⟨_, rfl, fun hq => hq⟩

/-- In every state of every run the control plane is in order. -/
theorem onward_ok {T : Terms Row Request ApiError Response} {s₀ s : System}
    (h₀ : s₀.threads = []) (h : Reach (controlPlane app) T s₀ s) : (onward app).Ok s := by
  refine ok_reach (P := onward app) (platform_valid app _ _) (fun s l s' hs _ _ => ?_)
    (ok_of_no_threads h₀) h
  exact kept_of_commits (P := onward app) trivial
    (fun db req tx hcom _ _ => onward_of_committing hcom) hs

/-- A job that a transaction has read past its queue has not come back to it. -/
theorem not_queued_of_read (h : (onward app).Since req tx db) {w : Cond} {old cur : Job}
    (hread : tx.Read w (.job old)) (hold : old.status ≠ .queued) (hcur : db.job old.id = some cur) :
    cur.status ≠ .queued := by
  obtain ⟨e, he, -, hget, -⟩ := hread
  have hkept : ∃ j, db.job old.id = some j ∧ j.status ≠ .queued :=
    h.keeps he (I := fun d => ∃ j, d.job old.id = some j ∧ j.status ≠ .queued)
      (fun tx' a b _ hab hj => by
        obtain ⟨j, hj, hne⟩ := hj
        obtain ⟨j', hj', hq⟩ := hab old.id j hj
        exact ⟨j', hj', fun hq' => hne (hq hq')⟩)
      ⟨old, Db.get_job_iff.1 hget, hold⟩
  obtain ⟨j, hj, hne⟩ := hkept
  rw [hcur, Option.some.injEq] at hj
  rwa [hj]

/-! ## Statuses -/

/-- The transaction is about to change the status of a job that has come to its end since
it was read, and to another status than it ended with. -/
def Overtaken (db : Database) (tx : Transaction) : Prop :=
  ∃ old new cur : Job, .update (.job old) (.job new) ∈ tx.writes ∧ new.status ≠ old.status ∧
    old.status.isTerminal = false ∧ db.job old.id = some cur ∧ cur.status.isTerminal = true ∧
    cur.status ≠ new.status

/-- No transaction commits over a job that has come to its end since it was read. -/
def NeverOvertaken : Terms Row Request ApiError Response :=
  OnCommits fun s _ th => ¬ Overtaken s.db th.ses.tx

/-- No job goes away, and every status that changes makes an allowed transition. -/
def StatusesLegal : Terms Row Request ApiError Response := fun s _ s' =>
  ∀ id j, s.db.job id = some j → ∃ j', s'.db.job id = some j' ∧
    (j'.status = j.status ∨ (j.status, j'.status) ∈ allowedTransitions)

theorem allowed_of_terminal {a b : JobStatus} (ha : a.isTerminal = false) (hq : a ≠ .queued)
    (hb : b.isTerminal = true) : (a, b) ∈ allowedTransitions := by
  cases a <;> cases b <;> simp_all [allowedTransitions, JobStatus.isTerminal]

/-- A commit that is not overtaken changes statuses legally. -/
theorem legal_of_not_overtaken (h : (onward app).Committing db req tx)
    (hover : ¬ Overtaken db tx) (id : Uuid) {j : Job} (hj : db.job id = some j) :
    ∃ j', (tx.view db).job id = some j' ∧
      (j'.status = j.status ∨ (j.status, j'.status) ∈ allowedTransitions) := by
  have hstep := job_step h id
  rw [hj] at hstep
  generalize (tx.view db).job id = o at hstep
  cases hstep with
  | same => exact ⟨j, rfl, Or.inl rfl⟩
  | claimed _ _ _ _ hclaim _ _ =>
    refine ⟨_, rfl, Or.inr ?_⟩
    rw [status_of_claimable hclaim]
    simp [Job.claimedBy, allowedTransitions]
  | completed hreq hn hread hassign hallowed hw =>
    rename_i bearer p n old now
    have hid := id_of_read_job hread
    refine ⟨_, rfl, ?_⟩
    rw [status_merge_terminated (ne_of_allowed hallowed)]
    have hterm := isTerminal_completionTarget old p.exitCode
    by_cases hcur : j.status.isTerminal
    · left
      by_contra hne
      exact hover ⟨old, _, j, hw, ne_of_allowed hallowed, isTerminal_of_allowed hallowed,
        hid ▸ hj, hcur, Ne.symm hne⟩
    · right
      rw [Bool.not_eq_true] at hcur
      by_cases hq : j.status = .queued
      · -- what it has read was queued as well, so the check it made is the one that counts
        have hold : old.status = .queued := by
          by_contra hne
          exact not_queued_of_read h.toSince hread hne (hid ▸ hj) hq
        rw [hq, ← hold]
        exact hallowed
      · exact allowed_of_terminal hcur hq hterm
  | cancelled hreq hread hstatus hw =>
    rename_i event old now
    have hid := id_of_read_job hread
    have hne : JobStatus.cancelled ≠ old.status := by rw [hstatus]; simp
    refine ⟨_, rfl, ?_⟩
    rw [status_merge_terminated hne]
    by_cases hcur : j.status.isTerminal
    · left
      by_contra hne'
      exact hover ⟨old, _, j, hw, hne, by rw [hstatus]; rfl, hid ▸ hj, hcur, Ne.symm hne'⟩
    · right
      cases hs : j.status <;> simp_all [allowedTransitions, JobStatus.isTerminal]
  | cancelRequested _ _ _ _ _ =>
    refine ⟨_, rfl, Or.inl ?_⟩
    simp [Job.merge, Job.cancelRequested]
  | nodeDeleted _ _ _ => exact ⟨_, rfl, Or.inl rfl⟩

/-- A commit that is overtaken does not. -/
theorem not_legal_of_overtaken (h : (onward app).Committing db req tx) (hover : Overtaken db tx) :
    ∃ id j, db.job id = some j ∧ ∀ j', (tx.view db).job id = some j' →
      j'.status ≠ j.status ∧ (j.status, j'.status) ∉ allowedTransitions := by
  obtain ⟨old, new, cur, hw, hne, -, hcur, hterm, hother⟩ := hover
  refine ⟨old.id, cur, hcur, fun j' hj' => ?_⟩
  rw [(job_of_update h hw).1, hcur, Option.map_some, Option.some.injEq] at hj'
  have hstatus : j'.status = new.status := by
    rw [← hj']
    exact col_of_ne hne _
  rw [hstatus]
  exact ⟨Ne.symm hother, not_allowed_of_isTerminal hterm⟩

/-- **The job state machine.**  Along every run of the control plane the statuses of the
jobs change as the state machine allows, exactly if no request finishes a job that has
come to its end since the request read it. -/
theorem statuses_legal_iff_never_overtaken (app : App) (db : Database) (clock : Time)
    (ls : List (Label Request)) :
    Along (controlPlane app) StatusesLegal (idle db clock) ls ↔
      Along (controlPlane app) NeverOvertaken (idle db clock) ls := by
  refine along_congr (fun _ => True) trivial (fun _ _ _ _ _ _ => trivial)
    (fun s l s' hr _ hs => ?_) ls
  have hok : (onward app).Ok s := onward_ok rfl hr
  constructor
  · intro hlegal i th hc hover
    obtain ⟨id, j, hj, hbad⟩ := not_legal_of_overtaken (hok.committing hc) hover
    obtain ⟨j', hj', hcases⟩ := hlegal id j hj
    rw [db_of_commits hc hs] at hj'
    rcases hcases with he | ha
    · exact (hbad j' hj').1 he
    · exact (hbad j' hj').2 ha
  · intro hnever id j hj
    rcases hok.db_cases hs with hdb | ⟨i, th, th', hc, hcom, hdb, -⟩
    · rw [hdb]; exact ⟨j, hj, Or.inl rfl⟩
    · rw [hdb]; exact legal_of_not_overtaken hcom (hnever i th hc) id hj

/-- One queued job, its owner and a node. -/
def queuedDb : Database :=
  ((Db.empty.insert (.user sampleUser)).insert (.node sampleNode)).insert (.job sampleJob)

/-- The queue of `queuedDb` is `sampleJob`. -/
theorem job_queuedDb {id : Uuid} {j : Job} (h : queuedDb.job id = some j) : j = sampleJob := by
  have hmem := Db.mem_of_get (Db.get_job_iff.2 h)
  have hrows : queuedDb.rows = [.user sampleUser, .node sampleNode, .job sampleJob] := by
    decide +kernel
  simpa [hrows] using hmem

/-- The owner's cancel reads the job in the queue; the node claims and completes it; the
cancel goes on to its commit. -/
def overtakenRun : List (Label Request) :=
  .spawn (.cancelJob sampleCaller 3) :: runs 0 3 ++
    .spawn (.claimJob (some sampleAgentToken)) :: runs 1 10 ++
    .spawn (.completeJob (some sampleAgentToken) 3 exitZero) :: runs 2 11 ++ runs 0 5

/-- **A completed job can become cancelled.** -/
theorem completed_then_cancelled :
    ¬ Along (controlPlane plainApp) StatusesLegal (idle queuedDb 0)
      (overtakenRun ++ [.run 0 0]) := by
  intro h
  obtain ⟨s₁, h₁, hj₁⟩ := Option.bind_eq_some_iff.1 (show
    (runFrom (controlPlane plainApp) (idle queuedDb 0) overtakenRun).bind
      (fun s => (s.db.job 3).map Job.status) = some .completed by decide +kernel)
  obtain ⟨s₂, h₂, hj₂⟩ := Option.bind_eq_some_iff.1 (show
    (runFrom (controlPlane plainApp) (idle queuedDb 0) (overtakenRun ++ [.run 0 0])).bind
      (fun s => (s.db.job 3).map Job.status) = some .cancelled by decide +kernel)
  obtain ⟨j₁, hj₁, hc₁⟩ := Option.map_eq_some_iff.1 hj₁
  obtain ⟨j₂, hj₂, hc₂⟩ := Option.map_eq_some_iff.1 hj₂
  obtain ⟨j, hj, hlegal⟩ := h.last h₁ h₂ 3 j₁ hj₁
  rw [hj₂, Option.some.injEq] at hj
  rw [← hj, hc₁, hc₂] at hlegal
  exact absurd hlegal (by decide)

end GpuNetwork
