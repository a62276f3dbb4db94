import GpuNetwork.Commits.OneAtATime
import GpuNetwork.Jobs.Billing
import Mathlib.Algebra.Order.Field.Rat
import Mathlib.Data.Rat.Floor
import Mathlib.Tactic.NormNum

/-!
# What a job may cost and what it does

`submit` compares the balance of an account with the cost of a job that runs to its
limit; `complete_job` bills the time the job took, rounded up.  The two agree on a job
that takes no longer than its limit.  Nothing on the server ends a job that does, so it
can cost more than what the submission was checked for.

* `submitFor`, `requiredHours` — the check.
* `billGpuHours_le_iff` — the bill, as the least number of hours that cover the time.
* `Submitted`, `Lasting` — what stays true of a job once it is submitted.
* `Finishes` — a transaction that ends a job and bills it.
-/

namespace GpuNetwork

open ReadCommitted ReadCommitted.Spec

/-! ## The check and the bill -/

/-- What a submission requires of the balance, in GPU-hours. -/
def requiredHours (gpuCount maxDurationSeconds : Int) : Rat :=
  (gpuCount * maxDurationSeconds : Int) / 3600

/-- What `submit` does for an account that has been authenticated. -/
def submitFor (caller : Caller) (p : SubmitJobRequest) (actor : User) : Handler Response :=
  if actor.status ≠ .active then .throw (.accountNotActive actor.status)
  else if actor.creditsGpuHours * 3600 < p.gpuCount * p.maxDurationSeconds then
    .throw (.insufficientCredits (p.gpuCount * p.maxDurationSeconds) actor.creditsGpuHours)
  else do
    let job ← createJob actor.id p
    createAudit .jobSubmitted (some actor.id)
      { jobId := some job.id, dockerImage := some p.dockerImage, gpuCount := some p.gpuCount,
        maxDurationSeconds := some p.maxDurationSeconds, preferredNodeId := p.preferredNodeId }
      caller.client
    commit
    let job ← refreshJob job.id
    pure (.job job)

theorem submitJob_eq (app : App) (caller : Caller) (p : SubmitJobRequest) :
    submitJob app caller p = currentUser app caller.bearer >>= submitFor caller p := rfl

theorem lt_requiredHours_iff {credits gpuCount maxDurationSeconds : Int} :
    (credits : Rat) < requiredHours gpuCount maxDurationSeconds ↔
      credits * 3600 < gpuCount * maxDurationSeconds := by
  unfold requiredHours
  rw [lt_div_iff₀ (by norm_num)]
  exact_mod_cast Iff.rfl

/-- An active account is refused exactly if its balance is below what is required. -/
theorem submitFor_throws_iff (caller : Caller) (p : SubmitJobRequest) {actor : User}
    (hactive : actor.status = .active) :
    (∃ e, submitFor caller p actor = .throw e) ↔
      (actor.creditsGpuHours : Rat) < requiredHours p.gpuCount p.maxDurationSeconds := by
  rw [lt_requiredHours_iff]
  unfold submitFor
  rw [if_neg (by simp [hactive])]
  by_cases hshort : actor.creditsGpuHours * 3600 < p.gpuCount * p.maxDurationSeconds
  · rw [if_pos hshort]
    exact ⟨fun _ => hshort, fun _ => ⟨_, rfl⟩⟩
  · rw [if_neg hshort]
    refine ⟨?_, fun h => absurd h hshort⟩
    rintro ⟨e, he⟩
    cases he

/-- **The bill is the least number of hours, and at least one, that covers the time.** -/
theorem billGpuHours_le_iff {startedAt completedAt : Time} {gpuCount hours : Int}
    (hhours : 1 ≤ hours) : billGpuHours startedAt completedAt gpuCount ≤ hours ↔
      max 0 (completedAt - startedAt) * gpuCount ≤ hours * gpuHour := by
  have hpos : 0 < gpuHour := by decide
  unfold billGpuHours
  rw [max_le_iff, neg_le, Int.le_ediv_iff_mul_le hpos, neg_mul, neg_le_neg_iff]
  exact ⟨fun h => h.2, fun h => ⟨hhours, h⟩⟩

/-- More time is not billed with less. -/
theorem billGpuHours_mono {startedAt completedAt startedAt' completedAt' : Time} {gpuCount : Int}
    (hgpu : 0 ≤ gpuCount) (h : completedAt - startedAt ≤ completedAt' - startedAt') :
    billGpuHours startedAt completedAt gpuCount ≤
      billGpuHours startedAt' completedAt' gpuCount := by
  rw [billGpuHours_le_iff (one_le_billGpuHours _ _ _)]
  refine le_trans ?_ ((billGpuHours_le_iff (one_le_billGpuHours _ _ _)).1 le_rfl)
  exact mul_le_mul_of_nonneg_right (max_le_max le_rfl h) hgpu

/-- **A balance passes the check exactly if it covers the bill of a job that runs to its
limit.** -/
theorem requiredHours_le_iff {credits gpuCount maxDurationSeconds : Int} (hgpu : 1 ≤ gpuCount)
    (hlimit : 1 ≤ maxDurationSeconds) (startedAt : Time) :
    ¬ (credits : Rat) < requiredHours gpuCount maxDurationSeconds ↔
      billGpuHours startedAt (startedAt + maxDurationSeconds * second) gpuCount ≤ credits := by
  rw [lt_requiredHours_iff, not_lt]
  have hcost : 1 ≤ gpuCount * maxDurationSeconds := by
    calc (1 : Int) ≤ gpuCount := hgpu
      _ ≤ gpuCount * maxDurationSeconds := le_mul_of_one_le_right (by omega) hlimit
  have htime : max 0 (startedAt + maxDurationSeconds * second - startedAt) * gpuCount =
      gpuCount * maxDurationSeconds * second := by
    have hnonneg : 0 ≤ maxDurationSeconds * second := by unfold second; omega
    rw [add_sub_cancel_left, max_eq_right hnonneg]
    ring
  have hcover : gpuCount * maxDurationSeconds * second ≤ credits * gpuHour ↔
      gpuCount * maxDurationSeconds ≤ credits * 3600 := by
    unfold gpuHour second
    omega
  constructor
  · intro h
    have hpos : 1 ≤ credits := by omega
    rw [billGpuHours_le_iff hpos, htime, hcover]
    exact h
  · intro h
    have hone := one_le_billGpuHours startedAt (startedAt + maxDurationSeconds * second) gpuCount
    rw [billGpuHours_le_iff (hone.trans h), htime, hcover] at h
    exact h

/-- The least number of whole GPU-hours that covers what the submission required. -/
def Job.limitHours (j : Job) : Int := ⌈requiredHours j.gpuCount j.maxDurationSeconds⌉

theorem le_limitHours {j : Job} :
    j.gpuCount * j.maxDurationSeconds * second ≤ j.limitHours * gpuHour := by
  have hceil : requiredHours j.gpuCount j.maxDurationSeconds ≤ (j.limitHours : Rat) :=
    Int.le_ceil _
  rw [← not_lt, lt_requiredHours_iff, not_lt] at hceil
  unfold gpuHour second
  omega

theorem one_le_limitHours {j : Job} (hgpu : 1 ≤ j.gpuCount) (hlimit : 1 ≤ j.maxDurationSeconds) :
    1 ≤ j.limitHours := by
  have hpos : (0 : Rat) < requiredHours j.gpuCount j.maxDurationSeconds := by
    rw [show (0 : Rat) = ((0 : Int) : Rat) from rfl, lt_requiredHours_iff, zero_mul]
    exact mul_pos (by omega) (by omega)
  have hceil : 0 < j.limitHours := Int.ceil_pos.2 hpos
  omega

/-! ## A job from its submission on -/

/-- What holds of the job `id` from its submission on. -/
structure Submitted (id : Uuid) (db : Database) : Prop where
  unassigned : ∀ j, db.job id = some j → j.status = .queued → j.assignedNodeId = none
  started : ∀ j, db.job id = some j → j.status = .running → j.startedAt.isSome
  gpus : ∀ j, db.job id = some j → 1 ≤ j.gpuCount
  limit : ∀ j, db.job id = some j → 1 ≤ j.maxDurationSeconds

/-- Jobs keep what they were submitted with, and past the queue the time they started. -/
def Lasting (a b : Database) : Prop :=
  ∀ id j, a.job id = some j → ∃ j', b.job id = some j' ∧ j'.userId = j.userId ∧
    j'.gpuCount = j.gpuCount ∧ j'.maxDurationSeconds = j.maxDurationSeconds ∧
    (j.status ≠ .queued → j'.status ≠ .queued ∧ j'.startedAt = j.startedAt)

section

variable {app : App} {rely : Rely} {refusals : Prop} {db : Database} {req : Request}
  {tx : Transaction}

/-- **Every commit leaves the jobs settled**, whatever the transaction had read. -/
theorem lasting_of_committing (h : (platform app rely refusals).Committing db req tx) :
    Lasting db (tx.view db) := by
  intro id j hj
  have honward := onward_of_committing h id j hj
  have hstep := job_step h id
  rw [hj] at hstep
  obtain ⟨j', hj', hqueued⟩ := honward
  rw [hj'] at hstep
  refine ⟨j', hj', ?_⟩
  have hpast : j.status ≠ .queued → j'.status ≠ .queued := fun hne hq => hne (hqueued hq)
  cases hstep with
  | same => exact ⟨rfl, rfl, rfl, fun hne => ⟨hne, rfl⟩⟩
  | claimed hreq hn hdrain hmiss hclaim hfound hw =>
    exact ⟨rfl, rfl, rfl, fun hne => absurd (status_of_claimable hclaim) hne⟩
  | completed hreq hn hread hassign hallowed hw =>
    exact ⟨rfl, rfl, rfl, fun hne => ⟨hpast hne, by simp [Job.merge, Job.terminated]⟩⟩
  | cancelled hc hread hstatus hw =>
    exact ⟨rfl, rfl, rfl, fun hne => ⟨hpast hne, by simp [Job.merge, Job.terminated]⟩⟩
  | cancelRequested hc hread hstatus hnone hw =>
    exact ⟨rfl, rfl, rfl, fun hne => ⟨hpast hne, by simp [Job.merge, Job.cancelRequested]⟩⟩
  | nodeDeleted hreq hmiss hw =>
    exact ⟨rfl, rfl, rfl, fun hne => ⟨hne, rfl⟩⟩

/-- What a job asks for it has been submitted with. -/
theorem ask_of_committing (h : (platform app rely refusals).Committing db req tx) {id : Uuid}
    {j' : Job} (hj' : (tx.view db).job id = some j') :
    (∃ j, db.job id = some j ∧ j'.gpuCount = j.gpuCount ∧
      j'.maxDurationSeconds = j.maxDurationSeconds) ∨
    ∃ p : SubmitJobRequest, j'.gpuCount = p.gpuCount ∧
      j'.maxDurationSeconds = p.maxDurationSeconds := by
  cases hj : db.job id with
  | some j =>
    obtain ⟨j₁, hj₁, -, hgpu, hlimit, -⟩ := lasting_of_committing h id j hj
    rw [hj', Option.some.injEq] at hj₁
    subst hj₁
    exact Or.inl ⟨j, rfl, hgpu, hlimit⟩
  | none =>
    have hstep := job_step h id
    rw [hj, hj'] at hstep
    cases hstep with
    | submitted hreq hu hid hjob =>
      rename_i caller p u
      rw [hjob]
      exact Or.inr ⟨p, rfl, rfl⟩

/-- **Every commit leaves a job as it was submitted.** -/
theorem submitted_of_committing (h : (platform app rely refusals).Committing db req tx)
    {id : Uuid} (hdb : Submitted id db) : Submitted id (tx.view db) := by
  refine ⟨fun j' hj' hq => unassigned_of_committing h hdb.unassigned hj' hq, ?_, ?_, ?_⟩
  · intro j' hj' hrun
    have hstep := job_step h id
    rw [hj'] at hstep
    generalize hb : db.job id = o at hstep
    cases hstep with
    | same => exact hdb.started j' hb hrun
    | submitted hreq hu hid hj => rw [hj] at hrun; cases hrun
    | claimed hreq hn hdrain hmiss hclaim hfound hw => rfl
    | completed hreq hn hread hassign hallowed hw =>
      rename_i bearer p n old cur now
      rw [status_merge_terminated (ne_of_allowed hallowed)] at hrun
      have hterm := isTerminal_completionTarget old p.exitCode
      rw [hrun] at hterm
      cases hterm
    | cancelled hc hread hstatus hw =>
      rw [status_merge_terminated (by rw [hstatus]; simp)] at hrun
      cases hrun
    | cancelRequested hc hread hstatus hnone hw =>
      have hold := hdb.started _ hb (by simpa [Job.merge, Job.cancelRequested] using hrun)
      simpa [Job.merge, Job.cancelRequested] using hold
    | nodeDeleted hreq hmiss hw =>
      rename_i caller n j
      exact hdb.started j hb hrun
  · intro j' hj'
    rcases ask_of_committing h hj' with ⟨j, hj, hgpu, -⟩ | ⟨p, hgpu, -⟩
    · rw [hgpu]; exact hdb.gpus j hj
    · rw [hgpu]; exact p.gpuCount_range.1
  · intro j' hj'
    rcases ask_of_committing h hj' with ⟨j, hj, -, hlimit⟩ | ⟨p, -, hlimit⟩
    · rw [hlimit]; exact hdb.limit j hj
    · rw [hlimit]; exact p.maxDurationSeconds_range.1

/-! ## The end of a job -/

/-- The transaction ends the job `id`: it logs a bill of `hours` and takes them from the
balance of the owner as it has found them. -/
def Finishes (tx : Transaction) (id : Uuid) (owner : Option User) (hours : Int) : Prop :=
  ∃ old new a, old.id = id ∧ Bills a id hours ∧
    tx.writes = .update (.job old) (.job new) ::
      (billWrites hours owner ++ [.insert (.auditLog a)])

/-- The specification under which the job `id` is as it was submitted, and every commit
keeps what the run promises. -/
def lasting (app : App) (id : Uuid) (keeps : Database → Database → Prop) :
    Spec Row Key Cond Request ApiError Response :=
  platform app (fun _ _ a b => Submitted id a ∧ Lasting a b ∧ keeps a b) True

variable {id : Uuid} {keeps : Database → Database → Prop}

/-- A job still is as a transaction has read it when it ran. -/
theorem job_of_read_started (h : (lasting app id keeps).Since req tx db) {w : Cond} {old : Job}
    (hread : tx.Read w (.job old)) (hstatus : old.status ≠ .queued) :
    ∃ j, db.job old.id = some j ∧ j.userId = old.userId ∧ j.gpuCount = old.gpuCount ∧
      j.startedAt = old.startedAt := by
  obtain ⟨e, he, -, hget, -⟩ := hread
  have hkept : ∃ j, db.job old.id = some j ∧ j.userId = old.userId ∧
      j.gpuCount = old.gpuCount ∧ j.status ≠ .queued ∧ j.startedAt = old.startedAt :=
    h.keeps he (I := fun d => ∃ j, d.job old.id = some j ∧ j.userId = old.userId ∧
      j.gpuCount = old.gpuCount ∧ j.status ≠ .queued ∧ j.startedAt = old.startedAt)
      (fun tx' a b _ hab hj => by
        obtain ⟨j, hj, huser, hgpu, hne, hstart⟩ := hj
        obtain ⟨j', hj', huser', hgpu', -, hlast⟩ := hab.2.1 old.id j hj
        obtain ⟨hne', hstart'⟩ := hlast hne
        exact ⟨j', hj', huser'.trans huser, hgpu'.trans hgpu, hne', hstart'.trans hstart⟩)
      ⟨old, Db.get_job_iff.1 hget, rfl, rfl, hstatus, rfl⟩
  obtain ⟨j, hj, huser, hgpu, -, hstart⟩ := hkept
  exact ⟨j, hj, huser, hgpu, hstart⟩

/-- **What ends a job that has been submitted.**  It has been started, and the bill is for
the time since then. -/
theorem finishes_of_committing {bearer : Option Str} {p : CompleteJobRequest}
    (h : (lasting app id keeps).Committing db (.completeJob bearer id p) tx)
    (hdb : Submitted id db) :
    ∃ j startedAt completedAt owner hours, db.job id = some j ∧ j.startedAt = some startedAt ∧
      hours = billGpuHours startedAt completedAt j.gpuCount ∧ Owner tx hours j.userId owner ∧
      Finishes tx id owner hours := by
  obtain ⟨n, old, completedAt, now, owner, hours, a, hn, hread, hassign, hallowed, hhours, howner,
    hfound, hw, hlogs⟩ := shape_of_completeJob h.shape
  have hid := id_of_read_job hread
  subst hid
  -- it was running when the transaction read it
  have hstarted : old.status ≠ .queued ∧ old.startedAt.isSome := by
    obtain ⟨e, he, -, hget, -⟩ := hread
    have hthen : Submitted old.id e.db :=
      h.toSince.held he (fun tx' a b hab => hab.1) hdb
    have hold : e.db.job old.id = some old := Db.get_job_iff.1 hget
    have hrun : old.status = .running := by
      cases hs : old.status with
      | running => rfl
      | queued =>
        have hnone := hthen.unassigned old hold hs
        rw [hassign] at hnone
        cases hnone
      | completed => exact absurd hallowed (not_allowed_of_isTerminal (by rw [hs]; rfl))
      | failed => exact absurd hallowed (not_allowed_of_isTerminal (by rw [hs]; rfl))
      | cancelled => exact absurd hallowed (not_allowed_of_isTerminal (by rw [hs]; rfl))
    exact ⟨by rw [hrun]; simp, hthen.started old hold hrun⟩
  obtain ⟨startedAt, hstartedAt⟩ := Option.isSome_iff_exists.1 hstarted.2
  obtain ⟨j, hj, huser, hgpu, hstart⟩ := job_of_read_started h.toSince hread hstarted.1
  refine ⟨j, startedAt, completedAt, owner, hours, hj, hstart.trans hstartedAt, ?_, ?_, ?_⟩
  · rw [hhours, hstartedAt, hgpu]
    rfl
  · rw [huser]
    exact howner
  · exact ⟨old, _, a, rfl, bills_of_completed hlogs rfl rfl, hw⟩

/-! ## A balance nobody else touches -/

/-- The balance of the account is the same. -/
def SameBalance (uid : Uuid) (a b : Database) : Prop :=
  (b.user uid).map User.creditsGpuHours = (a.user uid).map User.creditsGpuHours

/-- No commit of the run charges the account or changes its balance by an approval. -/
def LeavesBalance (uid : Uuid) : Terms Row Request ApiError Response :=
  OnCommits fun s _ th => SameBalance uid s.db (th.ses.tx.view s.db)

instance (uid : Uuid) (a b : Database) : Decidable (SameBalance uid a b) :=
  inferInstanceAs (Decidable ((b.user uid).map _ = (a.user uid).map _))

/-- The balance of the account covers the job `id` at its limit, if the job is theirs. -/
def Covers (uid id : Uuid) (db : Database) : Prop :=
  ∀ j, db.job id = some j → j.userId = uid → ∃ u, db.user uid = some u ∧
    j.gpuCount * j.maxDurationSeconds ≤ u.creditsGpuHours * 3600

variable {uid : Uuid}

/-- A balance still is as a transaction has read it. -/
theorem credits_of_read (h : (lasting app id (SameBalance uid)).Since req tx db) {w : Cond}
    {u : User} (hread : tx.Read w (.user u)) (hid : u.id = uid) :
    ∃ u', db.user uid = some u' ∧ u'.creditsGpuHours = u.creditsGpuHours := by
  obtain ⟨e, he, -, hget, -⟩ := hread
  have hthen : (e.db.user uid).map User.creditsGpuHours = some u.creditsGpuHours := by
    rw [← hid, Db.get_user_iff.1 hget, Option.map_some]
  have hnow : (db.user uid).map User.creditsGpuHours = some u.creditsGpuHours :=
    h.keeps he (I := fun d => (d.user uid).map User.creditsGpuHours = some u.creditsGpuHours)
      (fun tx' a b _ hab ha => hab.2.2.trans ha) hthen
  exact Option.map_eq_some_iff.1 hnow

/-- **Every commit that leaves the balance alone leaves the job covered.** -/
theorem covers_of_committing (h : (lasting app id (SameBalance uid)).Committing db req tx)
    (hkeep : SameBalance uid db (tx.view db)) (hdb : Covers uid id db) :
    Covers uid id (tx.view db) := by
  intro j' hj' huser'
  -- a balance that covers the job before covers it after
  have hafter : (∃ u, db.user uid = some u ∧
      j'.gpuCount * j'.maxDurationSeconds ≤ u.creditsGpuHours * 3600) →
      ∃ u, (tx.view db).user uid = some u ∧
        j'.gpuCount * j'.maxDurationSeconds ≤ u.creditsGpuHours * 3600 := by
    rintro ⟨u, hu, hcost⟩
    have hmap := hkeep
    rw [SameBalance, hu, Option.map_some] at hmap
    obtain ⟨u', hu', hcredits⟩ := Option.map_eq_some_iff.1 hmap
    exact ⟨u', hu', by rw [hcredits]; exact hcost⟩
  refine hafter ?_
  cases hj : db.job id with
  | some j =>
    obtain ⟨j₁, hj₁, huser, hgpu, hlimit, -⟩ := lasting_of_committing h id j hj
    rw [hj', Option.some.injEq] at hj₁
    subst hj₁
    rw [hgpu, hlimit]
    exact hdb j hj (huser ▸ huser')
  | none =>
    have hstep := job_step h id
    rw [hj, hj'] at hstep
    cases hstep with
    | submitted hreq hu hid hjob =>
      rename_i caller p account
      obtain ⟨u, j, a, ⟨cond, hread⟩, -, hcost, hask, -, hw⟩ :=
        shape_of_submitJob (hreq ▸ h.shape)
      rw [job_view_insert hw, hj] at hj'
      split at hj'
      · cases hj'
        have hfields : j'.userId = u.id ∧ j'.gpuCount = p.gpuCount ∧
            j'.maxDurationSeconds = p.maxDurationSeconds := by
          rw [hask]
          exact ⟨rfl, rfl, rfl⟩
        obtain ⟨u', hu', hcredits⟩ :=
          credits_of_read h.toSince hread (hfields.1.symm.trans huser')
        rw [hfields.2.1, hfields.2.2]
        exact ⟨u', hu', by rw [hcredits]; exact hcost⟩
      · cases hj'

/-- **A covered bill is deducted in full.** -/
theorem deducted_of_finishes (h : (lasting app id (SameBalance uid)).Since req tx db)
    {u : User} {owner : Option User} {hours : Int} (howner : Owner tx hours uid owner)
    (hfinish : Finishes tx id owner hours) (hu : db.user uid = some u) (hhours : 1 ≤ hours)
    (hcover : hours ≤ u.creditsGpuHours) :
    ∃ u', (tx.view db).user uid = some u' ∧ u'.creditsGpuHours = u.creditsGpuHours - hours := by
  obtain ⟨old, new, a, -, -, hw⟩ := hfinish
  cases owner with
  | none =>
    -- the account was there all the time
    obtain ⟨e, he, -, hno⟩ := howner
    have hthen : (e.db.user uid).map User.creditsGpuHours = none := by
      cases he' : e.db.user uid with
      | none => rfl
      | some x =>
        have hh := hno _ _ (Db.get_user_iff.2 he')
        simp [Cond.holds, Row.key, Db.id_of_user he'] at hh
    have hnow : (db.user uid).map User.creditsGpuHours = none :=
      h.keeps he (I := fun d => (d.user uid).map User.creditsGpuHours = none)
        (fun tx' a b _ hab ha => hab.2.2.trans ha) hthen
    rw [hu] at hnow
    cases hnow
  | some v =>
    have hid := id_of_read_user howner.1
    obtain ⟨u', hu', hcredits⟩ := credits_of_read h howner.1 hid
    rw [hu, Option.some.injEq] at hu'
    subst hu'
    have hview : (tx.view db).user uid =
        if v.id = uid then (db.user uid).map (v.merge (v.billed hours)) else db.user uid :=
      user_view_flushed (p := [.update (.job old) (.job new)]) hw
        (by simp [Write.target, Row.key]) (by simp [Write.target, Row.key]) uid
    rw [if_pos hid, hu, Option.map_some] at hview
    refine ⟨_, hview, ?_⟩
    have hnew : (v.billed hours).creditsGpuHours = u.creditsGpuHours - hours := by
      unfold User.billed
      rw [← hcredits]
      exact max_eq_right (by omega)
    have hne : (v.billed hours).creditsGpuHours ≠ v.creditsGpuHours := by omega
    exact (col_of_ne hne _).trans hnew

/-! ## Runs -/

/-- Along a run that starts before a job is there, the job is as it was submitted, and
what every commit keeps that keeps the promise stays true. -/
theorem lasting_ok (app : App) (keeps : Database → Database → Prop)
    {T : Terms Row Request ApiError Response} (hnone : db.job id = none)
    (hT : ∀ s l s' i th, T s l s' → Commits s l i th → keeps s.db (th.ses.tx.view s.db))
    {J : Database → Prop} (hJ : ∀ d req tx, (lasting app id keeps).Committing d req tx →
      keeps d (tx.view d) → J d → J (tx.view d))
    (hinit : J db) {clock : Time} {s : System} (h : Reach (controlPlane app) T (idle db clock) s) :
    (lasting app id keeps).Ok s ∧ Submitted id s.db ∧ J s.db := by
  have hsubmitted : Submitted id db := by
    refine ⟨?_, ?_, ?_, ?_⟩ <;> intro j hj <;> rw [hnone] at hj <;> cases hj
  refine h.invariant (fun s => (lasting app id keeps).Ok s ∧ Submitted id s.db ∧ J s.db)
    (fun s l s' hs hst ht => ?_) ⟨ok_of_no_threads rfl, hsubmitted, hinit⟩
  obtain ⟨hok, hsub, hinv⟩ := hs
  refine ⟨ok_step (platform_valid app _ _) hok hst ⟨fun _ => trivial, ?_⟩, ?_⟩
  · intro i th hc hcom j tj _ _ _
    rw [db_of_commits hc hst]
    exact ⟨hsub, lasting_of_committing hcom, hT s l s' i th ht hc⟩
  · rcases hok.db_cases hst with hdb | ⟨i, th, th', hc, hcom, hdb, -⟩
    · rw [hdb]; exact ⟨hsub, hinv⟩
    · rw [hdb]
      exact ⟨submitted_of_committing hcom hsub,
        hJ _ _ _ hcom (hT s l s' i th ht hc) hinv⟩

end

/-- The hours the transaction bills for the job `id`. -/
def billedFor (id : Uuid) (tx : Transaction) : List Int :=
  tx.writes.filterMap fun w =>
    match w with
    | .insert (.auditLog a) => if a.eventData.jobId = some id then a.eventData.billedGpuHours
      else none
    | _ => none

theorem billedFor_of_finishes {tx : Transaction} {id : Uuid} {owner : Option User} {hours : Int}
    (h : Finishes tx id owner hours) : billedFor id tx = [hours] := by
  obtain ⟨old, new, a, -, hbills, hw⟩ := h
  have howner : (billWrites hours owner).filterMap (fun w =>
      match w with
      | .insert (.auditLog a) => if a.eventData.jobId = some id then a.eventData.billedGpuHours
        else none
      | _ => (none : Option Int)) = [] := by
    cases owner with
    | none => rfl
    | some u =>
      rw [billWrites, flushed]
      split <;> rfl
  rw [billedFor, hw, List.filterMap_cons_none rfl, List.filterMap_append, howner]
  simp [hbills.job, hbills.hours]

/-- In the state `s`, a report of the job `id` bills no more than its limit exactly if the
time it bills fits into the limit. -/
def LimitsBill (id : Uuid) (s : System) : Prop :=
  ∀ (l : Label Request) (i : Nat) (th : Pending) (bearer : Option Str) (p : CompleteJobRequest),
    Commits s l i th → th.req = .completeJob bearer id p →
    ∃ j startedAt owner hours, s.db.job id = some j ∧ j.startedAt = some startedAt ∧
      Owner th.ses.tx hours j.userId owner ∧ Finishes th.ses.tx id owner hours ∧
      billedFor id th.ses.tx = [hours] ∧
      (∃ completedAt, hours = billGpuHours startedAt completedAt j.gpuCount) ∧
      ∀ completedAt, hours = billGpuHours startedAt completedAt j.gpuCount →
        (hours ≤ j.limitHours ↔
          (completedAt - startedAt) * j.gpuCount ≤ j.limitHours * gpuHour) ∧
        (completedAt - startedAt ≤ j.maxDurationSeconds * second → hours ≤ j.limitHours)

theorem billGpuHours_le_limitHours_iff {j : Job} (hgpu : 1 ≤ j.gpuCount)
    (hlimit : 1 ≤ j.maxDurationSeconds) (startedAt completedAt : Time) :
    billGpuHours startedAt completedAt j.gpuCount ≤ j.limitHours ↔
      (completedAt - startedAt) * j.gpuCount ≤ j.limitHours * gpuHour := by
  have hone := one_le_limitHours hgpu hlimit
  have hnonneg : 0 ≤ j.limitHours * gpuHour := by unfold gpuHour second; omega
  rw [billGpuHours_le_iff hone]
  rcases le_total (completedAt - startedAt) 0 with hneg | hpos
  · -- no time has passed, and nothing is above the limit
    have hgpus : 0 ≤ j.gpuCount := by omega
    have hprod : (completedAt - startedAt) * j.gpuCount ≤ 0 :=
      mul_nonpos_of_nonpos_of_nonneg hneg hgpus
    rw [max_eq_left hneg, zero_mul]
    exact ⟨fun _ => hprod.trans hnonneg, fun _ => hnonneg⟩
  · rw [max_eq_right hpos]

/-- **Within its limit a job costs no more than what was checked**, and beyond it exactly
as long as the whole hours of the limit last, in every run. -/
theorem bill_within_limit (app : App) {db : Database} {id : Uuid} (hnone : db.job id = none)
    {clock : Time} {s : System} (h : Reach (controlPlane app) anyTerms (idle db clock) s) :
    LimitsBill id s := by
  obtain ⟨hok, hsub, -⟩ := lasting_ok (J := fun _ => True) app (fun _ _ => True) hnone
    (fun _ _ _ _ _ _ _ => trivial) (fun _ _ _ _ _ _ => trivial) trivial h
  intro l i th bearer p hc hreq
  have hcom := hok.committing hc
  rw [hreq] at hcom
  obtain ⟨j, startedAt, completedAt, owner, hours, hj, hstart, hhours, howner, hfinish⟩ :=
    finishes_of_committing hcom hsub
  refine ⟨j, startedAt, owner, hours, hj, hstart, howner, hfinish, billedFor_of_finishes hfinish,
    ⟨completedAt, hhours⟩, ?_⟩
  intro time htime
  have hgpus : 0 ≤ j.gpuCount := zero_le_one.trans (hsub.gpus j hj)
  have hiff := billGpuHours_le_limitHours_iff (hsub.gpus j hj) (hsub.limit j hj) startedAt time
  rw [← htime] at hiff
  refine ⟨hiff, fun hintime => hiff.2 ?_⟩
  calc (time - startedAt) * j.gpuCount
      ≤ j.maxDurationSeconds * second * j.gpuCount :=
        mul_le_mul_of_nonneg_right hintime hgpus
    _ = j.gpuCount * j.maxDurationSeconds * second := by ring
    _ ≤ j.limitHours * gpuHour := le_limitHours

/-- An account with credits, and its node. -/
def renterDb : Database := (Db.empty.insert (.user sampleUser)).insert (.node sampleNode)

/-- One GPU for an hour. -/
def hourJob : SubmitJobRequest :=
  { sampleSubmission with maxDurationSeconds := 3600, maxDurationSeconds_range := by decide }

/-- A job of an hour is submitted and claimed, and after a while its end is reported; the
report is about to commit. -/
def hourRun (elapsed : Nat) : List (Label Request) :=
  .spawn (.submitJob sampleCaller hourJob) :: runs 0 10 ++
    .spawn (.claimJob (some sampleAgentToken)) :: runs 1 11 ++
    .tick elapsed :: .spawn (.completeJob (some sampleAgentToken) 0 exitZero) :: runs 2 10

/-- The next statement of the thread is its commit. -/
def atCommit (th : Pending) : Bool :=
  match th.prog with
  | .stmt .commit _ => true
  | _ => false

theorem commits_of_atCommit {s : System} {i : Nat} {th : Pending} (hi : s.threads[i]? = some th)
    (h : atCommit th = true) : Commits s (.run i 0) i th := by
  unfold atCommit at h
  split at h
  · rename_i k hp
    exact ⟨hi, ⟨k, hp⟩, 0, rfl⟩
  · cases h

/-- The request reports the job. -/
def reports (id : Uuid) : Request → Bool
  | .completeJob _ jobId _ => decide (jobId = id)
  | _ => false

theorem completeJob_of_reports {id : Uuid} {req : Request} (h : reports id req = true) :
    ∃ bearer p, req = .completeJob bearer id p := by
  unfold reports at h
  split at h
  · rename_i bearer jobId p
    rw [decide_eq_true_eq] at h
    subst h
    exact ⟨bearer, p, rfl⟩
  · cases h

theorem bill_within_limit_at_hourRun :
    ∃ s, Reach (controlPlane plainApp) anyTerms (idle renterDb 0) s ∧
      (∃ th, s.threads[2]? = some th ∧ atCommit th = true ∧ billedFor 0 th.ses.tx = [1]) ∧
      LimitsBill 0 s := by
  obtain ⟨s, hs, hth⟩ := Option.bind_eq_some_iff.1 (show
    (runFrom (controlPlane plainApp) (idle renterDb 0) (hourRun 3600000000)).bind
      (fun s => s.threads[2]?.map fun th => (atCommit th, billedFor 0 th.ses.tx)) =
        some (true, [1]) by decide +kernel)
  obtain ⟨th, hi, hfacts⟩ := Option.map_eq_some_iff.1 hth
  obtain ⟨hcommit, hbill⟩ := Prod.mk.inj hfacts
  have hr := Reach.of_runFrom hs
  exact ⟨s, hr, ⟨th, hi, hcommit, hbill⟩,
    bill_within_limit plainApp (show renterDb.job 0 = none by decide +kernel) hr⟩

/-- **A job can cost more than its limit**: one that is reported a second late. -/
theorem bill_exceeds_limit :
    ¬ ∀ s, Reach (controlPlane plainApp) OneAtATime (idle renterDb 0) s →
      ∀ (l : Label Request) (i : Nat) (th : Pending) (bearer : Option Str) (id : Uuid)
        (p : CompleteJobRequest), Commits s l i th → th.req = .completeJob bearer id p →
        ∀ j hours, s.db.job id = some j → hours ∈ billedFor id th.ses.tx →
          hours ≤ j.limitHours := by
  intro h
  obtain ⟨s, hs, hth⟩ := Option.bind_eq_some_iff.1 (show
    (runWhile (controlPlane plainApp) Sys.idles (idle renterDb 0) (hourRun 3601000000)).bind
      (fun s => s.threads[2]?.bind fun th => (s.db.job 0).map fun j =>
        (atCommit th, reports 0 th.req, billedFor 0 th.ses.tx, j.limitHours)) =
        some (true, true, [2], 1) by decide +kernel)
  obtain ⟨th, hi, hth⟩ := Option.bind_eq_some_iff.1 hth
  obtain ⟨j, hj, hfacts⟩ := Option.map_eq_some_iff.1 hth
  simp only [Prod.mk.injEq] at hfacts
  obtain ⟨hcommit, hreq, hbill, hlimit⟩ := hfacts
  obtain ⟨bearer, p, hreq⟩ := completeJob_of_reports hreq
  have hle := h s (Reach.of_idles hs) _ 2 th bearer 0 p (commits_of_atCommit hi hcommit) hreq j 2
    hj (by rw [hbill]; exact List.mem_singleton_self _)
  rw [hlimit] at hle
  exact absurd hle (by decide)

/-- In the state `s`, a report of the job `id` of the account `uid` that took no longer than
its limit takes the whole bill from the balance. -/
def DeductsInFull (app : App) (uid id : Uuid) (s : System) : Prop :=
  ∀ (l : Label Request) (s' : System) (i : Nat) (th : Pending) (bearer : Option Str)
    (p : CompleteJobRequest) (j : Job),
    step (controlPlane app) s l = some s' → Commits s l i th →
    th.req = .completeJob bearer id p → s.db.job id = some j → j.userId = uid →
    ∃ startedAt owner hours u, j.startedAt = some startedAt ∧ Finishes th.ses.tx id owner hours ∧
      s.db.user uid = some u ∧
      (∃ completedAt, hours = billGpuHours startedAt completedAt j.gpuCount) ∧
      ∀ completedAt, hours = billGpuHours startedAt completedAt j.gpuCount →
        completedAt - startedAt ≤ j.maxDurationSeconds * second →
        ∃ u', s'.db.user uid = some u' ∧ u'.creditsGpuHours = u.creditsGpuHours - hours ∧
          0 ≤ u'.creditsGpuHours

/-- The check of a submission and the bill of a report agree. -/
structure ChecksAsBilled (app : App) : Prop where
  /-- `submit` authenticates, and goes on with the account it found. -/
  submits : ∀ (caller : Caller) (p : SubmitJobRequest),
    submitJob app caller p = currentUser app caller.bearer >>= submitFor caller p
  /-- The check is the comparison with what is required. -/
  refuses : ∀ (caller : Caller) (p : SubmitJobRequest) (actor : User), actor.status = .active →
    ((∃ e, submitFor caller p actor = .throw e) ↔
      (actor.creditsGpuHours : Rat) < requiredHours p.gpuCount p.maxDurationSeconds)
  accepts : ∀ gpuCount maxDurationSeconds credits : Int, 1 ≤ gpuCount → 1 ≤ maxDurationSeconds →
    0 ≤ credits → ∀ startedAt, ¬ (credits : Rat) < requiredHours gpuCount maxDurationSeconds ↔
      billGpuHours startedAt (startedAt + maxDurationSeconds * second) gpuCount ≤ credits
  monotone : ∀ (startedAt completedAt startedAt' completedAt' : Time) (gpuCount : Int),
    1 ≤ gpuCount → completedAt - startedAt ≤ completedAt' - startedAt' →
    billGpuHours startedAt completedAt gpuCount ≤ billGpuHours startedAt' completedAt' gpuCount
  atLeastOne : ∀ (startedAt completedAt : Time) (gpuCount : Int),
    1 ≤ billGpuHours startedAt completedAt gpuCount

/-- **What is checked is what is billed**, so that where nothing else touches the balance a
job within its limit is paid for in full. -/
theorem admission_matches_billing (app : App) {db : Database} {uid id : Uuid}
    (hnone : db.job id = none) {clock : Time} {s : System}
    (h : Reach (controlPlane app) (LeavesBalance uid) (idle db clock) s) :
    ChecksAsBilled app ∧ DeductsInFull app uid id s := by
  refine ⟨⟨fun _ _ => rfl, fun caller p _ => submitFor_throws_iff caller p,
    fun _ _ _ hgpu hlimit _ startedAt => requiredHours_le_iff hgpu hlimit startedAt,
    fun _ _ _ _ _ hgpu htime => billGpuHours_mono (by omega) htime, one_le_billGpuHours⟩, ?_⟩
  have hinit : Covers uid id db := fun j hj => by rw [hnone] at hj; cases hj
  obtain ⟨hok, hsub, hcovers⟩ := lasting_ok app (SameBalance uid) hnone
    (fun s l s' i th ht hc => ht i th hc)
    (fun d req tx hcom hkeep hdb => covers_of_committing hcom hkeep hdb) hinit h
  intro l s' i th bearer p j hst hc hreq hj huser
  have hcom := hok.committing hc
  rw [hreq] at hcom
  obtain ⟨j₁, startedAt, completedAt, owner, hours, hj₁, hstart, hhours, howner, hfinish⟩ :=
    finishes_of_committing hcom hsub
  rw [hj, Option.some.injEq] at hj₁
  subst hj₁
  obtain ⟨u, hu, hcost⟩ := hcovers j hj huser
  refine ⟨startedAt, owner, hours, u, hstart, hfinish, hu, ⟨completedAt, hhours⟩, ?_⟩
  intro time htime hintime
  -- the check of the submission covers the bill of the whole limit
  have hgpus : 0 ≤ j.gpuCount := zero_le_one.trans (hsub.gpus j hj)
  have hcheck : ¬ (u.creditsGpuHours : Rat) < requiredHours j.gpuCount j.maxDurationSeconds := by
    rw [lt_requiredHours_iff, not_lt]
    exact hcost
  have hfull : hours ≤ u.creditsGpuHours := by
    calc hours = billGpuHours startedAt time j.gpuCount := htime
      _ ≤ billGpuHours startedAt (startedAt + j.maxDurationSeconds * second) j.gpuCount :=
        billGpuHours_mono hgpus (by rw [add_sub_cancel_left]; exact hintime)
      _ ≤ u.creditsGpuHours :=
        (requiredHours_le_iff (hsub.gpus j hj) (hsub.limit j hj) startedAt).1 hcheck
  have hone : 1 ≤ hours := by rw [hhours]; exact one_le_billGpuHours _ _ _
  rw [huser] at howner
  obtain ⟨u', hu', hcredits⟩ := deducted_of_finishes hcom.toSince howner hfinish hu hone hfull
  rw [db_of_commits hc hst]
  exact ⟨u', hu', hcredits, by omega⟩

theorem admission_matches_billing_at_hourRun :
    ∃ s, Reach (controlPlane plainApp) (LeavesBalance 1) (idle renterDb 0) s ∧
      (∃ th, s.threads[2]? = some th ∧ atCommit th = true ∧ billedFor 0 th.ses.tx = [1]) ∧
      ChecksAsBilled plainApp ∧ DeductsInFull plainApp 1 0 s := by
  obtain ⟨s, hs, hth⟩ := Option.bind_eq_some_iff.1 (show
    (runChecked (controlPlane plainApp)
      (fun s _ th => decide (SameBalance 1 s.db (th.ses.tx.view s.db))) (idle renterDb 0)
      (hourRun 3600000000)).bind
      (fun s => s.threads[2]?.map fun th => (atCommit th, billedFor 0 th.ses.tx)) =
        some (true, [1]) by decide +kernel)
  obtain ⟨th, hi, hfacts⟩ := Option.map_eq_some_iff.1 hth
  obtain ⟨hcommit, hbill⟩ := Prod.mk.inj hfacts
  have hr : Reach (controlPlane plainApp) (LeavesBalance 1) (idle renterDb 0) s :=
    (Reach.of_runChecked hs).mono fun _ _ _ ht => ht.1
  exact ⟨s, hr, ⟨th, hi, hcommit, hbill⟩,
    admission_matches_billing plainApp (show renterDb.job 0 = none by decide +kernel) hr⟩

end GpuNetwork
