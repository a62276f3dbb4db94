import GpuNetwork.Audit.Replay
import GpuNetwork.Jobs.Limits
import Mathlib.Algebra.BigOperators.Ring.Finset
import Mathlib.Algebra.Order.BigOperators.Group.Finset
import Mathlib.Algebra.Order.BigOperators.Group.List

/-!
# What credits cover

A submission is admitted if the balance of its owner covers the job at its limit.  The
check sets nothing aside: the balance goes down when a job is finished.  So credits cover
the jobs of an account as long as it submits no more than the balance covers together, and
no job is billed beyond its limit.  Bills are in whole hours, and so is what is counted.

* `Db.outstanding`, `Db.outstandingCost` — the jobs an account has yet to pay for.
* `Db.reserved` — what they are billed at most, in whole hours.
* `WithinCredits` — credits cover them.
* `SubmitsWithin`, `BilledWithin` — what keeps credits covering them.
-/

namespace GpuNetwork

open ReadCommitted ReadCommitted.Spec

/-- The cost of a job that runs to its limit, in GPU-hours. -/
def Job.worstCase (j : Job) : Rat := (j.gpuCount * j.maxDurationSeconds : Int) / 3600

/-- The job of the account is in the queue or runs. -/
def Job.Owed (u : Uuid) (j : Job) : Prop := j.userId = u ∧ j.status.isTerminal = false

instance (u : Uuid) (j : Job) : Decidable (j.Owed u) :=
  inferInstanceAs (Decidable (j.userId = u ∧ j.status.isTerminal = false))

/-- The job in a row, if the account has yet to pay for it. -/
def owedRow (u : Uuid) : Row → Option Job
  | .job j => if j.Owed u then some j else none
  | _ => none

end GpuNetwork

namespace ReadCommitted.Db

open GpuNetwork

/-- The jobs of the account in the queue or running. -/
def outstanding (db : Db Row) (u : Uuid) : List Job := db.rows.filterMap (owedRow u)

/-- What they cost if all of them run to their limits. -/
def outstandingCost (db : Db Row) (u : Uuid) : Rat :=
  ((db.outstanding u).map Job.worstCase).sum

/-- What they are billed at most if none of them runs beyond its limit, in whole hours. -/
def reserved (db : Db Row) (u : Uuid) : Int := ((db.outstanding u).map Job.limitHours).sum

/-- What is reserved for each of them. -/
def debts (db : Db Row) (u : Uuid) : Finset (Uuid × Int) :=
  ((db.outstanding u).map fun j => (j.id, j.limitHours)).toFinset

/-- The approvals of the account. -/
def approvals (db : Db Row) (u : Uuid) : List AuditLog :=
  db.events.filter fun a => decide (a.eventType = .userApproved ∧ a.userId = some u)

end ReadCommitted.Db

namespace GpuNetwork

open ReadCommitted ReadCommitted.Spec

/-- The account submits a job only while its balance covers the job and all that it has
outstanding. -/
def SubmitsWithin (u : Uuid) : Terms Row Request ApiError Response :=
  OnCommits fun s _ th => ∀ w ∈ th.ses.tx.writes, ∀ j, w = .insert (.job j) → j.userId = u →
    ∀ x, s.db.user u = some x → s.db.reserved u + j.limitHours ≤ x.creditsGpuHours

/-- No job of the account is billed beyond its limit. -/
def BilledWithin (u : Uuid) : Terms Row Request ApiError Response :=
  OnCommits fun s _ th => ∀ bearer id p, th.req = .completeJob bearer id p →
    ∀ j, s.db.job id = some j → j.userId = u → ∀ hours ∈ billedFor id th.ses.tx,
      hours ≤ j.limitHours

/-- Credits cover what the account may have to pay. -/
def WithinCredits (u : Uuid) (db : Database) : Prop :=
  ∀ x, db.user u = some x → db.outstandingCost u ≤ x.creditsGpuHours

theorem mem_outstanding {db : Database} {u : Uuid} {j : Job} :
    j ∈ db.outstanding u ↔ db.job j.id = some j ∧ j.Owed u := by
  constructor
  · intro h
    obtain ⟨r, hr, hj⟩ := List.mem_filterMap.1 h
    cases r with
    | job j' =>
      simp only [owedRow] at hj
      split at hj
      · rename_i howed
        cases hj
        exact ⟨Db.get_job_iff.1 (Db.get_of_mem hr), howed⟩
      · cases hj
    | _ => cases hj
  · rintro ⟨hj, howed⟩
    exact List.mem_filterMap.2
      ⟨.job j, Db.mem_of_get (Db.get_job_iff.2 hj), if_pos howed⟩

theorem outstanding_eq_nil_iff {db : Database} {u : Uuid} :
    db.outstanding u = [] ↔ ∀ id j, db.job id = some j → ¬ j.Owed u := by
  rw [List.eq_nil_iff_forall_not_mem]
  constructor
  · intro h id j hj howed
    have hid := Db.id_of_job hj
    subst hid
    exact h j (mem_outstanding.2 ⟨hj, howed⟩)
  · intro h j hj
    obtain ⟨hj, howed⟩ := mem_outstanding.1 hj
    exact h j.id j hj howed

/-- The jobs outstanding are distinct. -/
theorem nodup_outstanding (db : Database) (u : Uuid) : ((db.outstanding u).map Job.id).Nodup := by
  have hrows : (db.outstanding u).map (fun j => Key.job j.id) =
      (db.rows.filter fun r => (owedRow u r).isSome).map Row.key := by
    unfold Db.outstanding
    induction db.rows with
    | nil => rfl
    | cons r rows ih =>
      cases hr : owedRow u r with
      | none => simp [hr, ih]
      | some j =>
        have hkey : r.key = .job j.id := by
          cases r with
          | job j' =>
            simp only [owedRow] at hr
            split at hr
            · cases hr; rfl
            · cases hr
          | _ => cases hr
        simp [hr, ih, hkey]
  have hnd : ((db.outstanding u).map fun j => Key.job j.id).Nodup := by
    rw [hrows]
    exact db.nodup.sublist (List.filter_sublist.map _)
  rw [show (fun j : Job => Key.job j.id) = Key.job ∘ Job.id from rfl, ← List.map_map] at hnd
  exact List.Nodup.of_map _ hnd

/-- What is reserved, job by job. -/
theorem reserved_eq_sum (db : Database) (u : Uuid) : db.reserved u = ∑ d ∈ db.debts u, d.2 := by
  have hnd : ((db.outstanding u).map fun j => (j.id, j.limitHours)).Nodup :=
    List.Nodup.of_map Prod.fst (by rw [List.map_map]; exact nodup_outstanding db u)
  rw [Db.debts, List.sum_toFinset _ hnd, List.map_map]
  rfl

theorem mem_debts {db : Database} {u : Uuid} {d : Uuid × Int} :
    d ∈ db.debts u ↔ ∃ j, db.job d.1 = some j ∧ j.Owed u ∧ j.limitHours = d.2 := by
  rw [Db.debts, List.mem_toFinset, List.mem_map]
  constructor
  · rintro ⟨j, hj, rfl⟩
    obtain ⟨hjob, howed⟩ := mem_outstanding.1 hj
    exact ⟨j, hjob, howed, rfl⟩
  · rintro ⟨j, hj, howed, hlimit⟩
    have hid := Db.id_of_job hj
    exact ⟨j, mem_outstanding.2 ⟨hid ▸ hj, howed⟩, Prod.ext hid hlimit⟩

theorem debts_eq_empty {db : Database} {u : Uuid} (h : db.outstanding u = []) :
    db.debts u = ∅ := by
  rw [Db.debts, h]
  rfl

/-! ## Reserving and settling -/

/-- A job costs no more than it is billed for at its limit. -/
theorem worstCase_le_limitHours (j : Job) : j.worstCase ≤ j.limitHours :=
  Int.le_ceil (requiredHours j.gpuCount j.maxDurationSeconds)

/-- What is reserved covers what is outstanding. -/
theorem outstandingCost_le_reserved (db : Database) (u : Uuid) :
    db.outstandingCost u ≤ db.reserved u := by
  have hcast : (db.reserved u : Rat) =
      ((db.outstanding u).map fun j => (j.limitHours : Rat)).sum := by
    rw [Db.reserved, Int.cast_list_sum, List.map_map]
    rfl
  rw [hcast]
  exact List.sum_le_sum fun j _ => worstCase_le_limitHours j

variable {A B : Finset (Uuid × Int)} {d : Uuid × Int} {credits : Int}

/-- With fewer debts, no more is reserved. -/
theorem sum_debts_le (hpos : ∀ d ∈ A, 0 ≤ d.2) (h : B ⊆ A) : ∑ d ∈ B, d.2 ≤ ∑ d ∈ A, d.2 :=
  Finset.sum_le_sum_of_subset_of_nonneg h fun d hd _ => hpos d hd

/-- A debt that the balance still covers may be added. -/
theorem sum_debts_insert (hpos : ∀ x ∈ insert d A, 0 ≤ x.2) (h : B ⊆ insert d A)
    (hcover : ∑ d ∈ A, d.2 + d.2 ≤ credits) : ∑ d ∈ B, d.2 ≤ credits := by
  have hle := sum_debts_le hpos h
  have hd := hpos d (Finset.mem_insert_self d A)
  by_cases hmem : d ∈ A
  · rw [Finset.insert_eq_of_mem hmem] at hle
    omega
  · rw [Finset.sum_insert hmem] at hle
    omega

/-- A debt is settled with no more than was reserved for it. -/
theorem sum_debts_erase (hpos : ∀ d ∈ A, 0 ≤ d.2) (hd : d ∈ A) (h : B ⊆ A.erase d)
    (hcover : ∑ d ∈ A, d.2 ≤ credits) {hours : Int} (hhours : hours ≤ d.2) :
    ∑ d ∈ B, d.2 ≤ max 0 (credits - hours) := by
  have hle := sum_debts_le (fun x hx => hpos x (Finset.mem_of_mem_erase hx)) h
  have hsplit := Finset.sum_erase_add A Prod.snd hd
  omega

/-! ## One commit -/

/-- The balance of the account covers what is reserved. -/
def Covered (u : Uuid) (db : Database) : Prop :=
  ∀ x, db.user u = some x → db.reserved u ≤ x.creditsGpuHours

/-- The books of an account that has been approved once at most. -/
structure Reserved (u : Uuid) (db : Database) : Prop where
  covered : Covered u db
  asks : ∀ id j, db.job id = some j → j.Owed u → 0 ≤ j.limitHours
  idle : db.approvals u = [] ∨ db.user u = none → db.outstanding u = []
  inactive : db.approvals u = [] → ∀ x, db.user u = some x → x.status ≠ .active

theorem Reserved.withinCredits {u : Uuid} {db : Database} (h : Reserved u db) :
    WithinCredits u db := fun x hx =>
  (outstandingCost_le_reserved db u).trans (by exact_mod_cast h.covered x hx)

theorem Reserved.debts_nonneg {u : Uuid} {db : Database} (h : Reserved u db) :
    ∀ d ∈ db.debts u, 0 ≤ d.2 := by
  intro d hd
  obtain ⟨j, hj, howed, hlimit⟩ := mem_debts.1 hd
  exact hlimit ▸ h.asks d.1 j hj howed

variable {app : App} {db : Database} {req : Request} {tx : Transaction} {u : Uuid}

/-- What a commit leaves outstanding was so before, or has just been submitted. -/
theorem owed_cases (h : (serially app).Committing db req tx) {id : Uuid} {j' : Job}
    (hj' : (tx.view db).job id = some j') (howed : j'.Owed u) :
    (∃ j, db.job id = some j ∧ j.Owed u ∧ j'.limitHours = j.limitHours) ∨
    ((∃ caller p, req = .submitJob caller p) ∧
      (∃ a, tx.writes = [.insert (.job j'), .insert (.auditLog a)]) ∧
      0 ≤ j'.limitHours ∧ ∃ x, db.user u = some x ∧ x.status = .active) := by
  have hstep := job_step h id
  rw [hj'] at hstep
  generalize hj : db.job id = o at hstep
  cases hstep with
  | same => exact Or.inl ⟨j', rfl, howed, rfl⟩
  | submitted hreq hu hid hjob =>
    rename_i caller p account
    refine Or.inr ⟨⟨caller, p, hreq⟩, ?_⟩
    obtain ⟨x, j₀, a, ⟨cond, hread⟩, hact, hcost, hjob', hfresh, hw⟩ :=
      shape_of_submitJob (hreq ▸ h.shape)
    rw [job_view_insert hw, hj] at hj'
    split at hj'
    · cases hj'
      have hx := user_of_read h.toSince hread
      have hfields : j'.userId = x.id ∧ j'.gpuCount = p.gpuCount ∧
          j'.maxDurationSeconds = p.maxDurationSeconds := by
        rw [hjob']
        exact ⟨rfl, rfl, rfl⟩
      rw [← hfields.1, howed.1] at hx
      have hpos := one_le_limitHours (j := j') (by rw [hfields.2.1]; exact p.gpuCount_range.1)
        (by rw [hfields.2.2]; exact p.maxDurationSeconds_range.1)
      exact ⟨⟨a, hw⟩, by omega, x, hx, hact⟩
    · cases hj'
  | claimed hreq hn hdrain hmiss hclaim hfound hw =>
    rename_i bearer n j now
    refine Or.inl ⟨j, rfl, ⟨howed.1, ?_⟩, rfl⟩
    rw [status_of_claimable hclaim]
    rfl
  | completed hreq hn hread hassign hallowed hw =>
    rename_i bearer p n old cur now
    exact absurd howed.2 (by
      rw [status_merge_terminated (ne_of_allowed hallowed), isTerminal_completionTarget]
      simp)
  | cancelled hc hread hstatus hw =>
    exact absurd howed.2 (by
      rw [status_merge_terminated (by rw [hstatus]; simp)]
      simp [JobStatus.isTerminal])
  | cancelRequested hc hread hstatus hnone hw =>
    rename_i event old cur now
    refine Or.inl ⟨cur, rfl, ?_, rfl⟩
    simpa [Job.Owed, Job.merge, Job.cancelRequested] using howed
  | nodeDeleted hreq hmiss hw =>
    rename_i caller n j
    exact Or.inl ⟨j, rfl, howed, rfl⟩

/-- The job an agent has reported on has come to its end. -/
theorem terminal_of_completeJob (h : (serially app).Committing db req tx)
    {bearer : Option Str} {jobId : Uuid} {p : CompleteJobRequest}
    (hreq : req = .completeJob bearer jobId p) {j' : Job}
    (hj' : (tx.view db).job jobId = some j') : j'.status.isTerminal = true := by
  obtain ⟨n, old, completedAt, now, owner, hours, a, hn, hread, hassign, hallowed, hhours, howner,
    hfound, hw, hlogs⟩ := shape_of_completeJob (hreq ▸ h.shape)
  have hid := id_of_read_job hread
  subst hid
  rw [job_view_update hw target_of_mem_bill, if_pos rfl, job_of_read h.toSince hread,
    Option.map_some, merge_terminated] at hj'
  cases hj'
  exact isTerminal_completionTarget _ _

/-- A commit adds to the approvals; an approval by one. -/
theorem approvals_of_committing (h : (serially app).Committing db req tx) :
    ∃ new, (tx.view db).approvals u = db.approvals u ++ new ∧
      ∀ caller p, req = .approveUser caller u p → new ≠ [] := by
  have hshape := h.shape
  by_cases hreq : ∃ caller p, req = .approveUser caller u p
  · obtain ⟨caller, p, rfl⟩ := hreq
    cases hshape with
    | aside ha => cases ha
    | drain hd => cases hd
    | drained hd => cases hd
    | cancelQueued hc => cases hc
    | requestCancel hc => cases hc
    | cancelAgain hc => cases hc
    | sets hs hid hu hf hw hflush hlogs =>
      rename_i id event f data v a
      have hevents : (tx.view db).events = db.events ++ [a] :=
        events_logged hw (fun w hm k => by rw [target_of_mem_flushed hm]; simp [Row.key])
          (by simp) (h.get_of_fresh hlogs.fresh)
      have ha : a.eventType = .userApproved ∧ a.userId = some u := by
        cases hs
        exact ⟨hlogs.event, hlogs.userId⟩
      refine ⟨[a], ?_, fun _ _ _ => by simp⟩
      rw [Db.approvals, hevents, List.filter_append]
      simp [Db.approvals, ha]
  · obtain ⟨new, hnew⟩ := recorded_of_committing h
    refine ⟨new.filter fun a => decide (a.eventType = .userApproved ∧ a.userId = some u), ?_,
      fun caller p he => absurd ⟨caller, p, he⟩ hreq⟩
    rw [Db.approvals, hnew.events, List.filter_append]
    rfl

/-- What an approval or a suspension makes of the account it has read. -/
theorem user_of_set (h : (serially app).Since req tx db) {event : Event} {f : User → User}
    {data : EventData} {v cur : User} (hs : Sets req u event f data) (hv : AsUser tx v)
    (hid : v.id = u) (hcur : db.user u = some cur) : v.merge (f v) cur = f cur := by
  obtain ⟨cond, hread⟩ := hv
  have hnow := user_of_read h hread
  rw [hid, hcur, Option.some.injEq] at hnow
  subst hnow
  cases hs <;> simp [User.merge]

/-! ### What each kind of commit does -/

/-- Only a submission adds to what is outstanding. -/
theorem debts_subset (h : (serially app).Committing db req tx)
    (hreq : ∀ caller p, req ≠ .submitJob caller p) : (tx.view db).debts u ⊆ db.debts u := by
  intro d hd
  obtain ⟨j', hj', howed, hlimit⟩ := mem_debts.1 hd
  rcases owed_cases h hj' howed with ⟨j, hj, hold, hsame⟩ | ⟨⟨caller, p, hsub⟩, -⟩
  · exact mem_debts.2 ⟨j, hj, hold, hsame.symm.trans hlimit⟩
  · exact absurd hsub (hreq caller p)

/-- A submission adds one job, which its owner's balance covers besides the others. -/
theorem covered_of_submit {caller : Caller} {p : SubmitJobRequest}
    (h : (serially app).Committing db (.submitJob caller p) tx)
    (hsub : ∀ w ∈ tx.writes, ∀ j, w = .insert (.job j) → j.userId = u →
      ∀ x, db.user u = some x → db.reserved u + j.limitHours ≤ x.creditsGpuHours)
    (hdb : Reserved u db) : Covered u (tx.view db) := by
  intro x hx
  -- the account is as it was
  have hstep := user_step h u
  have hsame : db.user u = some x := by
    rw [hx] at hstep
    generalize db.user u = o at hstep
    cases hstep with
    | same => rfl
    | signedUp hreq => cases hreq
    | set hs => cases hs
    | billed hreq => cases hreq
  obtain ⟨y, j, a, -, -, -, hask, -, hw⟩ := shape_of_submitJob h.shape
  -- what is outstanding was so before, or is the new job
  have hcases : ∀ d ∈ (tx.view db).debts u,
      d ∈ db.debts u ∨ (j.userId = u ∧ d = (j.id, j.limitHours)) := by
    intro d hd
    obtain ⟨j', hj', howed, hlimit⟩ := mem_debts.1 hd
    rcases owed_cases h hj' howed with ⟨j₀, hj₀, hold, hkept⟩ | ⟨-, ⟨a', hw'⟩, -⟩
    · exact Or.inl (mem_debts.2 ⟨j₀, hj₀, hold, hkept.symm.trans hlimit⟩)
    · rw [hw] at hw'
      cases hw'
      exact Or.inr ⟨howed.1, Prod.ext (Db.id_of_job hj').symm hlimit.symm⟩
  have hcovered := hdb.covered x hsame
  rw [reserved_eq_sum] at hcovered ⊢
  by_cases howner : j.userId = u
  · have hcover := hsub _ (by rw [hw]; exact List.mem_cons_self ..) j rfl howner x hsame
    have hpos : 1 ≤ j.limitHours := by
      rw [hask]
      exact one_le_limitHours p.gpuCount_range.1 p.maxDurationSeconds_range.1
    rw [reserved_eq_sum] at hcover
    refine sum_debts_insert (d := (j.id, j.limitHours)) ?_ (fun d hd => ?_) hcover
    · exact Finset.forall_mem_insert _ _ _ |>.2 ⟨by omega, hdb.debts_nonneg⟩
    · exact Finset.mem_insert.2 ((hcases d hd).symm.imp_left fun hnew => hnew.2)
  · have hsubset : (tx.view db).debts u ⊆ db.debts u := fun d hd =>
      (hcases d hd).resolve_right fun hnew => howner hnew.1
    exact (sum_debts_le hdb.debts_nonneg hsubset).trans hcovered

/-- A report of one of the account's jobs takes no more from its balance than what was
reserved for the job. -/
theorem covered_of_bill {bearer : Option Str} {jobId : Uuid} {p : CompleteJobRequest}
    (h : (serially app).Committing db (.completeJob bearer jobId p) tx) {j : Job}
    (hj : db.job jobId = some j) (howner : j.userId = u)
    (hbill : ∀ hours ∈ billedFor jobId tx, hours ≤ j.limitHours) (hdb : Reserved u db) :
    Covered u (tx.view db) := by
  obtain ⟨n, old, completedAt, now, owner, hours, a, hn, hread, hassign, hallowed, hhours, hown,
    hfound, hw, hlogs⟩ := shape_of_completeJob h.shape
  have hid := id_of_read_job hread
  subst hid
  have hold := job_of_read h.toSince hread
  rw [hj, Option.some.injEq] at hold
  subst hold
  have howed : j.Owed u := ⟨howner, isTerminal_of_allowed hallowed⟩
  have hfinish : Finishes tx j.id owner hours :=
    ⟨j, _, a, rfl, bills_of_completed hlogs rfl rfl, hw⟩
  rw [billedFor_of_finishes hfinish, List.forall_mem_singleton] at hbill
  rw [howner] at hown
  intro x hx
  cases owner with
  | none =>
    -- an account with a job is there
    have hout := hdb.idle (Or.inr (user_eq_none_of_missed h.toSince hown))
    exact absurd howed (outstanding_eq_nil_iff.1 hout j.id j hj)
  | some v =>
    have huser := user_of_read h.toSince hown.1
    have hvid := id_of_read_user hown.1
    have hview : (tx.view db).user u = _ :=
      user_view_flushed (p := [.update (.job j) (.job _)]) hw
        (by simp [Write.target, Row.key]) (by simp [Write.target, Row.key]) u
    rw [hvid] at huser
    rw [if_pos hvid, huser, hx, Option.map_some, Option.some.injEq] at hview
    have hcredits : x.creditsGpuHours = max 0 (v.creditsGpuHours - hours) := by
      simp [hview, User.merge, User.billed]
    have hcovered := hdb.covered v huser
    rw [reserved_eq_sum] at hcovered ⊢
    rw [hcredits]
    refine sum_debts_erase (d := (j.id, j.limitHours)) hdb.debts_nonneg
      (mem_debts.2 ⟨j, hj, howed, rfl⟩) (fun d hd => ?_) hcovered hbill
    refine Finset.mem_erase.2 ⟨?_, debts_subset h (by simp) hd⟩
    rintro rfl
    obtain ⟨j', hj', howed', -⟩ := mem_debts.1 hd
    have hterm := terminal_of_completeJob h rfl hj'
    rw [howed'.2] at hterm
    cases hterm

/-- Any other commit leaves the balance, or sets it while nothing is outstanding. -/
theorem covered_of_other (h : (serially app).Committing db req tx)
    (hsub : ∀ caller p, req ≠ .submitJob caller p)
    (hbill : ∀ bearer jobId p j, req = .completeJob bearer jobId p → db.job jobId = some j →
      j.userId ≠ u)
    (hone : ((tx.view db).approvals u).length ≤ 1) (hdb : Reserved u db) :
    Covered u (tx.view db) := by
  intro x' hx'
  have hsubset := debts_subset (u := u) h hsub
  have hle := sum_debts_le hdb.debts_nonneg hsubset
  have hnothing : db.outstanding u = [] → ∑ d ∈ (tx.view db).debts u, d.2 = 0 := by
    intro hout
    rw [debts_eq_empty hout, Finset.subset_empty] at hsubset
    rw [hsubset, Finset.sum_empty]
  have hstep := user_step h u
  generalize hx : db.user u = o at hstep
  rw [hx'] at hstep
  rw [reserved_eq_sum]
  cases hstep with
  | same => exact hle.trans (reserved_eq_sum db u ▸ hdb.covered x' hx)
  | signedUp hreq hid hu =>
    rw [hnothing (hdb.idle (Or.inr hx)), hu]
  | set hs hv hid =>
    rename_i cur
    rw [user_of_set h.toSince hs hv hid hx]
    cases hs with
    | approveUser =>
      rename_i p _
      -- the one approval finds nothing outstanding
      obtain ⟨new, happ, hadds⟩ := approvals_of_committing (u := u) h
      have hlen := List.length_pos_iff.2 (hadds _ _ rfl)
      rw [happ, List.length_append] at hone
      have happs : db.approvals u = [] := List.length_eq_zero_iff.1 (by omega)
      rw [hnothing (hdb.idle (Or.inl happs))]
      exact p.credits_nonneg
    | suspendUser =>
      exact hle.trans (reserved_eq_sum db u ▸ hdb.covered cur hx)
  | billed hreq hread hallowed howner hv hid =>
    have hjob := job_of_read h.toSince hread
    rw [id_of_read_job hread] at hjob
    exact absurd howner (hbill _ _ _ _ hreq hjob)

/-- An account without approvals is not active. -/
theorem unapproved_of_committing (h : (serially app).Committing db req tx)
    (hdb : db.approvals u = [] → ∀ x, db.user u = some x → x.status ≠ .active) :
    (tx.view db).approvals u = [] → ∀ x, (tx.view db).user u = some x → x.status ≠ .active := by
  intro hnone x' hx'
  obtain ⟨new, happ, hadds⟩ := approvals_of_committing (u := u) h
  rw [happ, List.append_eq_nil_iff] at hnone
  have hstep := user_step h u
  generalize hx : db.user u = o at hstep
  rw [hx'] at hstep
  cases hstep with
  | same => exact hdb hnone.1 x' hx
  | signedUp hreq hid hu =>
    rw [hu]
    simp
  | set hs hv hid =>
    rw [user_of_set h.toSince hs hv hid hx]
    cases hs with
    | approveUser => exact absurd hnone.2 (hadds _ _ rfl)
    | suspendUser => simp
  | billed hreq hread hallowed howner hv hid =>
    rename_i cur hours
    simpa [User.merge, User.billed] using hdb hnone.1 cur hx

/-- Nothing is outstanding of an account without approvals, or that is not there. -/
theorem idle_of_committing (h : (serially app).Committing db req tx) (hdb : Reserved u db)
    (hidle : (tx.view db).approvals u = [] ∨ (tx.view db).user u = none) :
    (tx.view db).outstanding u = [] := by
  have hbefore : db.approvals u = [] ∨ db.user u = none := by
    refine hidle.imp (fun hnone => ?_) fun hgone => ?_
    · obtain ⟨new, happ, -⟩ := approvals_of_committing (u := u) h
      rw [happ] at hnone
      exact (List.append_eq_nil_iff.1 hnone).1
    · have hstep := user_step h u
      rw [hgone] at hstep
      generalize db.user u = o at hstep
      cases hstep
      rfl
  refine outstanding_eq_nil_iff.2 fun id j' hj' howed => ?_
  rcases owed_cases h hj' howed with ⟨j, hj, hold, -⟩ | ⟨-, -, -, x, hx, hactive⟩
  · exact outstanding_eq_nil_iff.1 (hdb.idle hbefore) id j hj hold
  · rcases hbefore with hnone | hgone
    · exact hdb.inactive hnone x hx hactive
    · rw [hgone] at hx
      cases hx

/-- **Every commit keeps the books** of an account that submits no more than its balance
covers and is not billed beyond the limits of its jobs. -/
theorem reserved_of_committing (h : (serially app).Committing db req tx)
    (hsub : ∀ w ∈ tx.writes, ∀ j, w = .insert (.job j) → j.userId = u →
      ∀ x, db.user u = some x → db.reserved u + j.limitHours ≤ x.creditsGpuHours)
    (hbill : ∀ bearer id p, req = .completeJob bearer id p → ∀ j, db.job id = some j →
      j.userId = u → ∀ hours ∈ billedFor id tx, hours ≤ j.limitHours)
    (hone : ((tx.view db).approvals u).length ≤ 1) (hdb : Reserved u db) :
    Reserved u (tx.view db) where
  covered := by
    by_cases hreq : ∃ caller p, req = .submitJob caller p
    · obtain ⟨caller, p, rfl⟩ := hreq
      exact covered_of_submit h hsub hdb
    · by_cases hcompletes : ∃ bearer id p j, req = .completeJob bearer id p ∧
          db.job id = some j ∧ j.userId = u
      · obtain ⟨bearer, id, p, j, rfl, hj, howner⟩ := hcompletes
        exact covered_of_bill h hj howner (hbill bearer id p rfl j hj howner) hdb
      · exact covered_of_other h (fun caller p he => hreq ⟨caller, p, he⟩)
          (fun bearer id p j he hj howner => hcompletes ⟨bearer, id, p, j, he, hj, howner⟩) hone hdb
  asks := by
    intro id j' hj' howed
    rcases owed_cases h hj' howed with ⟨j, hj, hold, hsame⟩ | ⟨-, -, hpos, -⟩
    · rw [hsame]
      exact hdb.asks id j hj hold
    · exact hpos
  idle := idle_of_committing h hdb
  inactive := unapproved_of_committing h hdb.inactive

/-! ## Runs -/

/-- **Credits cover what is outstanding**, any number of jobs, in every state of a run of one
request at a time in which the account has been approved once at most, has submitted each of
its jobs only while its balance covered it together with the others, and has not been billed
beyond the limit of a job. -/
theorem credits_cover_reserved_jobs (app : App) {u : Uuid} {db : Database} (hdb : Reserved u db)
    {clock : Time} {s : System}
    (h : Reach (controlPlane app)
      (fun s l s' => OneAtATime s l s' ∧ SubmitsWithin u s l s' ∧ BilledWithin u s l s')
      (idle db clock) s)
    (hone : (s.db.approvals u).length ≤ 1) : WithinCredits u s.db := by
  have hinv : (s.db.approvals u).length ≤ 1 → Reserved u s.db :=
    serial_invariant (P := serially app) (platform_valid app _ _) trivial
      (fun _ _ _ ht => ht.1) (fun d => (d.approvals u).length ≤ 1 → Reserved u d)
      (fun _ _ _ i th ht hc hcom hI hlen => by
        obtain ⟨new, happ, -⟩ := approvals_of_committing (u := u) hcom
        have hlen' := hlen
        rw [happ, List.length_append] at hlen'
        exact reserved_of_committing hcom (ht.2.1 i th hc) (ht.2.2 i th hc) hlen
          (hI (by omega)))
      rfl (fun _ => hdb) h
  exact (hinv hone).withinCredits

/-! ## Two runs -/

/-- An account that waits for its approval. -/
def pendingUser : User :=
  { sampleUser with status := .pending, canHost := false, creditsGpuHours := 0 }

/-- The account and an administrator. -/
def accountsDb : Database :=
  (Db.empty.insert (.user pendingUser)).insert (.user
    { sampleUser with id := 7, email := "admin@example.org".toList, isAdmin := true })

/-- The account is approved with some GPU-hours. -/
def approval (creditsGpuHours : Nat) : Request :=
  .approveUser { bearer := some "jwt-7".toList } 1
    { creditsGpuHours, credits_nonneg := Int.natCast_nonneg _ }

/-- The account is approved with one GPU-hour, and submits a job for it. -/
def approvedRun : List (Label Request) :=
  .spawn (approval 1) :: runs 0 9 ++ .spawn (.submitJob sampleCaller hourJob) :: runs 1 10

/-- With three GPU-hours the account submits two jobs; one of them runs to its limit and is
billed, and the account submits a third. -/
def reservedRun : List (Label Request) :=
  .spawn (approval 3) :: runs 0 9 ++ .spawn (.submitJob sampleCaller hourJob) :: runs 1 10 ++
    .spawn (.submitJob sampleCaller hourJob) :: runs 2 10 ++
    .spawn (.claimJob (some sampleAgentToken)) :: runs 3 11 ++
    .tick 3600000000 :: .spawn (.completeJob (some sampleAgentToken) 1 exitZero) :: runs 4 12 ++
    .spawn (.submitJob sampleCaller hourJob) :: runs 5 10

/-- The accounts and a node. -/
def hostedDb : Database := accountsDb.insert (.node sampleNode)

/-- The balance covers the job that is submitted, besides those outstanding. -/
def submitsWithin (u : Uuid) (s : System) (_ : Nat) (th : Pending) : Bool :=
  th.ses.tx.writes.all fun w =>
    match w with
    | .insert (.job j) => decide (j.userId ≠ u) || (s.db.user u).all fun x =>
        decide (s.db.reserved u + j.limitHours ≤ x.creditsGpuHours)
    | _ => true

theorem submitsWithin_sound {u : Uuid} {s s' : System} {l : Label Request}
    (h : passes (submitsWithin u) s l = true) : SubmitsWithin u s l s' := by
  intro i th hc w hw j he hj x hx
  have hcheck := List.all_eq_true.1 (passes_sound h hc) w hw
  rw [he] at hcheck
  simpa [hj, hx] using hcheck

/-- The bill of the job that is reported is within its limit. -/
def billedWithin (u : Uuid) (s : System) (_ : Nat) (th : Pending) : Bool :=
  match th.req with
  | .completeJob _ id _ => (s.db.job id).all fun j => decide (j.userId ≠ u) ||
      (billedFor id th.ses.tx).all fun hours => decide (hours ≤ j.limitHours)
  | _ => true

theorem billedWithin_sound {u : Uuid} {s s' : System} {l : Label Request}
    (h : passes (billedWithin u) s l = true) : BilledWithin u s l s' := by
  intro i th hc bearer id p hreq j hj howner hours hhours
  have hcheck := passes_sound h hc
  simp only [billedWithin, hreq, hj, Option.all_some, howner, ne_eq, not_true_eq_false,
    decide_false, Bool.false_or, List.all_eq_true, decide_eq_true_eq] at hcheck
  exact hcheck hours hhours

theorem reserved_hostedDb : Reserved 1 hostedDb := by
  have hjobs : ∀ id, hostedDb.job id = none := by
    intro id
    cases hj : hostedDb.job id with
    | none => rfl
    | some j =>
      have hmem := Db.mem_of_get (Db.get_job_iff.2 hj)
      have hrows : hostedDb.rows = [.user pendingUser, .user { sampleUser with
        id := 7, email := "admin@example.org".toList, isAdmin := true }, .node sampleNode] := by
        decide +kernel
      rw [hrows] at hmem
      simp at hmem
  have huser : hostedDb.user 1 = some pendingUser := by decide +kernel
  have hnothing : hostedDb.outstanding 1 = [] := by decide +kernel
  refine ⟨fun x hx => ?_, fun id j hj => ?_, fun _ => hnothing, fun _ x hx => ?_⟩
  · rw [huser] at hx
    cases hx
    rw [Db.reserved, hnothing]
    exact le_rfl
  · rw [hjobs] at hj
    cases hj
  · rw [huser] at hx
    cases hx
    decide

theorem credits_cover_reserved_jobs_at_reservedRun :
    ∃ s, Reach (controlPlane plainApp)
        (fun s l s' => OneAtATime s l s' ∧ SubmitsWithin 1 s l s' ∧ BilledWithin 1 s l s')
        (idle hostedDb 0) s ∧
      (s.db.outstanding 1).map Job.id = [2, 5] ∧ s.db.outstandingCost 1 = 2 ∧
      (s.db.user 1).map User.creditsGpuHours = some 2 ∧ WithinCredits 1 s.db := by
  obtain ⟨s, hs, hfacts⟩ := Option.map_eq_some_iff.1 (show
    (runWhile (controlPlane plainApp)
      (fun s l => s.idles l && (passes (submitsWithin 1) s l && passes (billedWithin 1) s l))
      (idle hostedDb 0) reservedRun).map
      (fun s => ((s.db.outstanding 1).map Job.id, s.db.outstandingCost 1,
        (s.db.user 1).map User.creditsGpuHours, (s.db.approvals 1).length)) =
      some ([2, 5], 2, some 2, 1) by decide +kernel)
  simp only [Prod.mk.injEq] at hfacts
  obtain ⟨hjobs, hcost, hcredits, happ⟩ := hfacts
  have hr : Reach (controlPlane plainApp)
      (fun s l s' => OneAtATime s l s' ∧ SubmitsWithin 1 s l s' ∧ BilledWithin 1 s l s')
      (idle hostedDb 0) s :=
    (Reach.of_runWhile hs).mono fun s l s' ht => by
      obtain ⟨hidle, hpass⟩ := Bool.and_eq_true_iff.1 ht.1
      obtain ⟨hsubmits, hbilled⟩ := Bool.and_eq_true_iff.1 hpass
      exact ⟨oneAtATime_of_idles hidle, submitsWithin_sound hsubmits, billedWithin_sound hbilled⟩
  exact ⟨s, hr, hjobs, hcost, hcredits,
    credits_cover_reserved_jobs plainApp reserved_hostedDb hr (by omega)⟩

/-- **Credits do not cover two jobs**, each of which they cover. -/
theorem credits_overcommitted :
    ¬ ∀ s, Reach (controlPlane plainApp) OneAtATime (idle accountsDb 0) s →
      (∀ u, (s.db.approvals u).length ≤ 1) → ∀ u, WithinCredits u s.db := by
  intro h
  obtain ⟨s, hs, hfacts⟩ := Option.bind_eq_some_iff.1 (show
    (runWhile (controlPlane plainApp) Sys.idles (idle accountsDb 0)
      (approvedRun ++ .spawn (.submitJob sampleCaller hourJob) :: runs 2 10)).bind
      (fun s => (s.db.user 1).map fun x => (x.creditsGpuHours, s.db.outstandingCost 1,
        (s.db.events.filter fun a => decide (a.eventType = .userApproved)).length)) =
      some (1, 2, 1) by decide +kernel)
  obtain ⟨x, hx, hall⟩ := Option.map_eq_some_iff.1 hfacts
  obtain ⟨hcredits, hrest⟩ := Prod.mk.inj hall
  obtain ⟨hcost, happ⟩ := Prod.mk.inj hrest
  have hone : ∀ u, (s.db.approvals u).length ≤ 1 := by
    intro u
    rw [← happ, Db.approvals, ← List.countP_eq_length_filter, ← List.countP_eq_length_filter]
    exact List.countP_mono_left fun a _ ha => by
      simp only [decide_eq_true_eq] at ha ⊢
      exact ha.1
  have hwithin := h s (Reach.of_idles hs) hone 1 x hx
  rw [hcost, hcredits] at hwithin
  exact absurd hwithin (by decide)

end GpuNetwork
