import GpuNetwork.Jobs.StateMachine

/-!
# Accepted cancels

A cancel either ends a job or asks its agent to stop; which of the two is decided by a
status that was read without a lock, and what `complete_job` makes of the request is
decided by a flag that was.

* `Settled` — a job that is cancelled, or will be when its agent reports.
* `Crossed` — a transaction that goes against a cancel it has not seen, or asks for one
  of a job that has meanwhile run to its end.
-/

namespace GpuNetwork

open ReadCommitted ReadCommitted.Spec

/-- The agent has reported the job, and it counts as run. -/
def JobStatus.ranToEnd : JobStatus → Bool
  | .completed => true
  | .failed => true
  | _ => false

/-- The job is cancelled, or the request for it stands. -/
def Job.settled (j : Job) : Bool :=
  !j.status.ranToEnd && (decide (j.status = .cancelled) || j.cancelRequestedAt.isSome)

/-- The job `id` is cancelled, or the request for it stands. -/
def Settled (id : Uuid) (db : Database) : Prop := ∃ j, db.job id = some j ∧ j.settled = true

/-- No job that has run to its end carries a request to cancel it. -/
def CancelsHeeded (db : Database) : Prop :=
  ∀ id j, db.job id = some j → j.status.ranToEnd = true → j.cancelRequestedAt = none

/-- The write has a job run to its end that is cancelled or to be cancelled, or asks for
the cancellation of a job that has run to its end. -/
def crosses (db : Database) : Write Row Key → Bool
  | .update (.job old) (.job new) =>
    (db.job old.id).any fun cur =>
      (new.status.ranToEnd && !old.status.ranToEnd &&
        (decide (cur.status = .cancelled) || cur.cancelRequestedAt.isSome)) ||
      (new.cancelRequestedAt.isSome && old.cancelRequestedAt.isNone && cur.status.ranToEnd)
  | _ => false

def Crossed (db : Database) (tx : Transaction) : Prop := ∃ w ∈ tx.writes, crosses db w = true

instance (db : Database) (tx : Transaction) : Decidable (Crossed db tx) :=
  inferInstanceAs (Decidable (∃ w ∈ tx.writes, crosses db w = true))

/-- No transaction commits across a cancel. -/
def NeverCrossed : Terms Row Request ApiError Response :=
  OnCommits fun s _ th => ¬ Crossed s.db th.ses.tx

/-! ## One commit -/

variable {app : App} {rely : Rely} {refusals : Prop} {db : Database} {req : Request}
  {tx : Transaction}

/-- What a commit that does not cross a cancel knows about the job it completes. -/
theorem not_settled_of_ran {old new cur : Job} (hcross : ¬ Crossed db tx)
    (hw : .update (.job old) (.job new) ∈ tx.writes) (hcur : db.job old.id = some cur)
    (hnew : new.status.ranToEnd = true) (hold : old.status.isTerminal = false) :
    cur.status ≠ .cancelled ∧ cur.cancelRequestedAt = none := by
  have hran : old.status.ranToEnd = false := by
    cases hs : old.status <;> simp_all [JobStatus.ranToEnd, JobStatus.isTerminal]
  constructor
  · intro hc
    exact hcross ⟨_, hw, by simp [crosses, hcur, hnew, hran, hc]⟩
  · cases hr : cur.cancelRequestedAt with
    | none => rfl
    | some t => exact absurd ⟨_, hw, by simp [crosses, hcur, hnew, hran, hr]⟩ hcross

/-- What it knows about the job it asks to be cancelled. -/
theorem not_ran_of_requested {old cur : Job} {now : Time} (hcross : ¬ Crossed db tx)
    (hw : .update (.job old) (.job (old.cancelRequested now)) ∈ tx.writes)
    (hcur : db.job old.id = some cur) (hold : old.cancelRequestedAt = none) :
    cur.status.ranToEnd = false := by
  cases hr : cur.status.ranToEnd with
  | false => rfl
  | true => exact absurd ⟨_, hw, by simp [crosses, hcur, hold, hr, Job.cancelRequested]⟩ hcross

/-- **A cancel that is settled stays settled.** -/
theorem settled_of_committing (h : (platform app rely refusals).Committing db req tx)
    (hcross : ¬ Crossed db tx) {id : Uuid} (hs : Settled id db) : Settled id (tx.view db) := by
  obtain ⟨j, hj, hset⟩ := hs
  have hstep := job_step h id
  rw [hj] at hstep
  unfold Settled
  generalize (tx.view db).job id = o at hstep
  cases hstep with
  | same => exact ⟨j, rfl, hset⟩
  | claimed hreq hn hdrain hmiss hclaim hfound hw =>
    have hq := status_of_claimable hclaim
    refine ⟨_, rfl, ?_⟩
    simp only [Job.settled, hq] at hset
    simpa [Job.settled, Job.claimedBy, JobStatus.ranToEnd] using hset
  | completed hreq hn hread hassign hallowed hw =>
    rename_i bearer p n old now
    have hid := id_of_read_job hread
    refine ⟨_, rfl, ?_⟩
    have hstatus : (old.merge (old.terminated (completionTarget old p.exitCode)
        (some p.exitCode) p.errorMessage now) j).status = completionTarget old p.exitCode :=
      status_merge_terminated (ne_of_allowed hallowed)
    cases hran : (completionTarget old p.exitCode).ranToEnd with
    | true =>
      have hcur := not_settled_of_ran hcross hw (hid ▸ hj) hran (isTerminal_of_allowed hallowed)
      simp [Job.settled, hcur.1, hcur.2] at hset
    | false =>
      have htarget : completionTarget old p.exitCode = .cancelled := by
        rcases completionTarget_cases old p.exitCode with ht | ht | ht
        · exact ht
        · rw [ht] at hran; cases hran
        · rw [ht] at hran; cases hran
      unfold Job.settled
      rw [hstatus, htarget]
      rfl
  | cancelled hreq hread hstatus hw =>
    refine ⟨_, rfl, ?_⟩
    unfold Job.settled
    rw [status_merge_terminated (by rw [hstatus]; simp)]
    rfl
  | cancelRequested hreq hread hstatus hnone hw =>
    refine ⟨_, rfl, ?_⟩
    unfold Job.settled at hset ⊢
    simp_all [Job.merge, Job.cancelRequested, col]
  | nodeDeleted _ _ _ => exact ⟨_, rfl, hset⟩

/-- The specification under which a settled cancel is counted on. -/
def settling (app : App) : Spec Row Key Cond Request ApiError Response :=
  platform app (fun _ _ a b => ∀ id, Settled id a → Settled id b) True

theorem Cancels.id_eq {id id' : Uuid} {event event' : Event} (h : Cancels req id event)
    (h' : Cancels req id' event') : id = id' := by
  cases h <;> cases h' <;> rfl

/-- What a cancel commits. -/
theorem shape_of_cancels (h : Shape app req tx) {id : Uuid} {event : Event}
    (hc : Cancels req id event) :
    (∃ old now, tx.Read (.byKey (.job id)) (.job old) ∧ old.status = .queued ∧
      tx.Found (.job old.id) ∧ .update (.job old)
        (.job (old.terminated .cancelled none (some cancelledByUser) now)) ∈ tx.writes) ∨
    (∃ old now, tx.Read (.byKey (.job id)) (.job old) ∧ old.status = .running ∧
      old.cancelRequestedAt = none ∧ tx.Found (.job old.id) ∧
      .update (.job old) (.job (old.cancelRequested now)) ∈ tx.writes) ∨
    ∃ old, tx.Read (.byKey (.job id)) (.job old) ∧ old.status = .running ∧
      old.cancelRequestedAt.isSome = true := by
  cases h with
  | cancelQueued hc' hread hstatus hfound hw hlogs =>
    have hid := hc.id_eq hc'
    subst hid
    exact Or.inl ⟨_, _, hread, hstatus, hfound, by rw [hw]; exact List.mem_cons_self ..⟩
  | requestCancel hc' hread hstatus hnone hfound hw hlogs =>
    have hid := hc.id_eq hc'
    subst hid
    exact Or.inr (Or.inl ⟨_, _, hread, hstatus, hnone, hfound, by
      rw [hw]; exact List.mem_cons_self ..⟩)
  | cancelAgain hc' hread hstatus hsome hw hlogs =>
    have hid := hc.id_eq hc'
    subst hid
    exact Or.inr (Or.inr ⟨_, hread, hstatus, hsome⟩)
  | aside ha => cases hc <;> cases ha
  | sets hs => cases hc <;> cases hs
  | drain hd => cases hc <;> cases hd
  | drained hd => cases hc <;> cases hd
  | _ => cases hc

/-- **A cancel settles its job.** -/
theorem settled_of_cancels (h : (settling app).Committing db req tx) (hcross : ¬ Crossed db tx)
    {id : Uuid} {event : Event} (hc : Cancels req id event) : Settled id (tx.view db) := by
  rcases shape_of_cancels h.shape hc with ⟨old, now, hread, hstatus, hfound, hw⟩ |
    ⟨old, now, hread, hstatus, hnone, hfound, hw⟩ | ⟨old, hread, hstatus, hsome⟩
  · have hid := id_of_read_job hread
    obtain ⟨cur, hcur⟩ := job_of_found h.toSince hfound
    have hview := (job_of_update h hw).1
    rw [hcur, hid] at hview
    refine ⟨_, hview, ?_⟩
    unfold Job.settled
    rw [status_merge_terminated (by rw [hstatus]; simp)]
    rfl
  · have hid := id_of_read_job hread
    obtain ⟨cur, hcur⟩ := job_of_found h.toSince hfound
    have hran := not_ran_of_requested hcross hw hcur hnone
    have hview := (job_of_update h hw).1
    rw [hcur, hid] at hview
    refine ⟨_, hview, ?_⟩
    simp [Job.settled, Job.merge, Job.cancelRequested, hran, hnone, col]
  · -- nothing is written: the job was settled when it was read, and has been since
    have hid := id_of_read_job hread
    obtain ⟨e, he, -, hget, -⟩ := hread
    have hthen : Settled id e.db := by
      refine ⟨old, Db.get_job_iff.1 (hid ▸ hget), ?_⟩
      simp [Job.settled, hstatus, hsome, JobStatus.ranToEnd]
    have hnow : Settled id db :=
      h.keeps he (I := Settled id) (fun tx' a b _ hab ha => hab id ha) hthen
    exact settled_of_committing h hcross hnow

/-- A commit that does not cross a cancel leaves all of them heeded. -/
theorem heeded_of_committing (h : (platform app rely refusals).Committing db req tx)
    (hcross : ¬ Crossed db tx) (hdb : CancelsHeeded db) : CancelsHeeded (tx.view db) := by
  intro id j' hj' hran
  have hstep := job_step h id
  rw [hj'] at hstep
  generalize hb : db.job id = o at hstep
  cases hstep with
  | same => exact hdb id j' hb hran
  | submitted hreq hu hid hj => rw [hj]
  | claimed hreq hn hdrain hmiss hclaim hfound hw => cases hran
  | completed hreq hn hread hassign hallowed hw =>
    rename_i bearer p n old cur now
    have hid := id_of_read_job hread
    rw [status_merge_terminated (ne_of_allowed hallowed)] at hran
    have hcur := not_settled_of_ran hcross hw (hid ▸ hb) hran (isTerminal_of_allowed hallowed)
    simp [Job.merge, Job.terminated, hcur.2]
  | cancelled hreq hread hstatus hw =>
    rw [status_merge_terminated (by rw [hstatus]; simp)] at hran
    cases hran
  | cancelRequested hreq hread hstatus hnone hw =>
    rename_i event old cur now
    have hid := id_of_read_job hread
    have hnot := not_ran_of_requested hcross hw (hid ▸ hb) hnone
    simp [Job.merge, Job.cancelRequested, hnot] at hran
  | nodeDeleted hreq hmiss hw =>
    have hj := hdb id _ hb
    exact hj hran

/-! ## Runs -/

/-- No job that has run to its end carries a request to cancel it, and a job whose cancel
has been answered with success has ended, if it has, as cancelled. -/
def CancelsWin (s : System) : Prop :=
  CancelsHeeded s.db ∧ ∀ (i : Nat) (th : Pending) (id : Uuid) (event : Event) (a : Response),
    s.threads[i]? = some th → Cancels th.req id event → th.prog = .ret a →
    ∃ j, s.db.job id = some j ∧ (j.status.isTerminal = true → j.status = .cancelled)

/-- **An accepted cancel wins**, in every run in which no transaction commits across a
cancel. -/
theorem accepted_cancel_wins (app : App) {db : Database} (hdb : CancelsHeeded db) (clock : Time)
    {s : System} (h : Reach (controlPlane app) NeverCrossed (idle db clock) s) :
    CancelsWin s := by
  have hchron : (settling app).Chronicle (controlPlane app) NeverCrossed CancelsHeeded
      (fun req _ d => ∀ id event, Cancels req id event → Settled id d) :=
    { kept := fun s l s' hs ht _ => ⟨fun _ => trivial, fun i th hc hcom j tj _ _ _ id hset => by
        rw [db_of_commits hc hs]
        exact settled_of_committing hcom (ht i th hc) hset⟩
      inv := fun s l s' i th ht hc hcom hI => heeded_of_committing hcom (ht i th hc) hI
      new := fun s l s' i th ht hc hcom hI id event hreq =>
        settled_of_cancels hcom (ht i th hc) hreq
      old := fun s l s' i th ht hc hcom hI req tx hG id event hreq =>
        settled_of_committing hcom (ht i th hc) (hG id event hreq) }
  obtain ⟨hok, hheeded, hpast⟩ := history (platform_valid app _ _) hchron rfl hdb h
  refine ⟨hheeded, fun i th id event a hi hc hret => ?_⟩
  -- the answer stands for a commit
  have hpost : (settling app).post th.req (.ok a) th.ses.past := by
    have hsafe := hok.safe i th hi
    rw [hret] at hsafe
    exact hsafe
  have htx : ∃ tx, th.ses.past = [tx] := by
    generalize hreq : th.req = req at hc hpost
    cases hc <;> exact hpost
  obtain ⟨tx, htx⟩ := htx
  obtain ⟨j, hj, hset⟩ := hpast i th hi tx (by rw [htx]; exact List.mem_singleton_self tx)
    id event hc
  refine ⟨j, hj, fun hterm => ?_⟩
  cases hs : j.status <;> simp_all [Job.settled, JobStatus.ranToEnd, JobStatus.isTerminal]

/-- The node claims the job, the owner cancels it, and the agent reports success. -/
def cancelledRun : List (Label Request) :=
  .spawn (.claimJob (some sampleAgentToken)) :: runs 0 11 ++
    .spawn (.cancelJob sampleCaller 3) :: runs 1 10 ++
    .spawn (.completeJob (some sampleAgentToken) 3 exitZero) :: runs 2 12

theorem accepted_cancel_wins_at_cancelledRun :
    ∃ s, Reach (controlPlane plainApp) NeverCrossed (idle queuedDb 0) s ∧
      (s.db.job 3).map Job.status = some .cancelled ∧ CancelsWin s := by
  obtain ⟨s, hs, hstatus⟩ := Option.bind_eq_some_iff.1 (show
    (runChecked (controlPlane plainApp) (fun s _ th => decide (¬ Crossed s.db th.ses.tx))
      (idle queuedDb 0) cancelledRun).bind
        (fun s => (s.db.job 3).map Job.status) = some .cancelled by decide +kernel)
  have hdb : CancelsHeeded queuedDb := by
    intro id j hj hran
    rw [job_queuedDb hj] at hran
    cases hran
  have hr := (Reach.of_runChecked hs).mono fun _ _ _ ht => ht.1
  exact ⟨s, hr, hstatus, accepted_cancel_wins plainApp hdb 0 hr⟩

/-- The same, but the cancel reads the running job before the agent reports, and commits
after it. -/
def crossedRun : List (Label Request) :=
  .spawn (.claimJob (some sampleAgentToken)) :: runs 0 11 ++
    .spawn (.cancelJob sampleCaller 3) :: runs 1 3 ++
    .spawn (.completeJob (some sampleAgentToken) 3 exitZero) :: runs 2 12 ++ runs 1 7

/-- **A job can be completed under an accepted cancel.** -/
theorem cancel_accepted_job_completed :
    ¬ ∀ s, Reach (controlPlane plainApp) anyTerms (idle queuedDb 0) s → CancelsWin s := by
  intro h
  obtain ⟨s, hs, hjob⟩ := Option.bind_eq_some_iff.1 (show
    (runFrom (controlPlane plainApp) (idle queuedDb 0) crossedRun).bind
      (fun s => (s.db.job 3).map fun j => (j.status, j.cancelRequestedAt)) =
        some (.completed, some 0) by decide +kernel)
  obtain ⟨j, hj, hfields⟩ := Option.map_eq_some_iff.1 hjob
  obtain ⟨hstatus, hreq⟩ := Prod.mk.inj hfields
  have hnone := (h s (Reach.of_runFrom hs)).1 3 j hj (by rw [hstatus]; rfl)
  rw [hreq] at hnone
  cases hnone

end GpuNetwork
