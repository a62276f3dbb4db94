import GpuNetwork.Agent.Custody

/-!
# Where the outcome of a job comes from

What the store says of the end of a job, somebody has said: the daemon of its node, which has
run the container to that end, or someone who may cancel the job.

* `Blank`, `Settles` — what commits keep of a job that has not ended.
* `Daemon.Told`, `told_step` — what a daemon sends, it has found out by running the job.
* `Testified`, `testified_step` — how the store and the reports of daemons go together.
* `Attested`, `outcomes_are_attested`.
-/

namespace GpuNetwork

open ReadCommitted ReadCommitted.Spec

/-! ## Commits -/

/-- A job that has not ended carries no outcome, and one in the queue no node. -/
def Blank (db : Database) : Prop :=
  ∀ id j, db.job id = some j → j.status.isTerminal = false →
    j.exitCode = none ∧ j.errorMessage = none ∧ (j.status = .queued → j.assignedNodeId = none)

/-- A job past the queue stays on its node, as long as that is there, and goes on carrying the
request to cancel it. -/
def Settles (a b : Database) : Prop :=
  ∀ id j, a.job id = some j → j.status ≠ .queued → ∃ j', b.job id = some j' ∧
    j'.status ≠ .queued ∧ (j'.assignedNodeId = j.assignedNodeId ∨ j'.assignedNodeId = none) ∧
    (j.cancelRequestedAt.isSome = true → j'.cancelRequestedAt.isSome = true)

/-- The specification of the platform for daemons whose reports are believed. -/
def testifying (app : App) (tokens : Uuid → Str) : Spec Row Key Cond Request ApiError Response :=
  overseeing app fun _ _ a b => Owned app tokens a ∧ Blank a ∧ Settles a b

variable {app : App} {tokens : Uuid → Str} {rely : Rely} {refusals : Prop} {db : Database}
  {req : Request} {tx : Transaction}

theorem blank_of_committing (h : (platform app rely refusals).Committing db req tx)
    (hdb : Blank db) : Blank (tx.view db) := by
  intro id j' hj' hterm
  have hstep := job_step h id
  rw [hj'] at hstep
  generalize hb : db.job id = o at hstep
  cases hstep with
  | same => exact hdb id j' hb hterm
  | submitted hreq hu hid hj => rw [hj]; exact ⟨rfl, rfl, fun _ => rfl⟩
  | claimed hreq hn hdrain hmiss hclaim hfound hw =>
    have hold := hdb id _ hb (by rw [status_of_claimable hclaim]; rfl)
    exact ⟨hold.1, hold.2.1, fun hq => by cases hq⟩
  | completed hreq hn hread hassign hallowed hw =>
    rw [status_merge_terminated (ne_of_allowed hallowed), isTerminal_completionTarget] at hterm
    cases hterm
  | cancelled hreq hread hstatus hw =>
    rw [status_merge_terminated (by rw [hstatus]; simp)] at hterm
    cases hterm
  | cancelRequested hreq hread hstatus hnone hw =>
    simp only [Job.merge, Job.cancelRequested, col_self] at hterm ⊢
    exact hdb id _ hb hterm
  | nodeDeleted hreq hmiss hw =>
    obtain ⟨hexit, hmessage, hnode⟩ := hdb id _ hb hterm
    refine ⟨hexit, hmessage, fun hq => ?_⟩
    simp [Job.cleared, setNull, hnode hq]

theorem settles_of_committing (h : (platform app rely refusals).Committing db req tx) :
    Settles db (tx.view db) := by
  intro id j hj hne
  have hstep := job_step h id
  rw [hj] at hstep
  generalize (tx.view db).job id = o at hstep
  cases hstep with
  | same => exact ⟨j, rfl, hne, Or.inl rfl, fun hflag => hflag⟩
  | claimed hreq hn hdrain hmiss hclaim hfound hw => exact absurd (status_of_claimable hclaim) hne
  | completed hreq hn hread hassign hallowed hw =>
    refine ⟨_, rfl, ?_, Or.inl ?_, fun hflag => ?_⟩
    · rw [status_merge_terminated (ne_of_allowed hallowed)]
      exact completionTarget_ne_queued _ _
    · simp [Job.merge, Job.terminated]
    · simpa [Job.merge, Job.terminated] using hflag
  | cancelled hreq hread hstatus hw =>
    refine ⟨_, rfl, ?_, Or.inl ?_, fun hflag => ?_⟩
    · rw [status_merge_terminated (by rw [hstatus]; simp)]
      simp
    · simp [Job.merge, Job.terminated]
    · simpa [Job.merge, Job.terminated] using hflag
  | cancelRequested hreq hread hstatus hnone hw =>
    refine ⟨_, rfl, ?_, Or.inl ?_, fun hflag => ?_⟩
    · simpa [Job.merge, Job.cancelRequested] using hne
    · simp [Job.merge, Job.cancelRequested]
    · simp [Job.merge, Job.cancelRequested, hnone, col]
  | nodeDeleted hreq hmiss hw =>
    rename_i caller n
    refine ⟨_, rfl, hne, ?_, fun hflag => hflag⟩
    by_cases hn : j.assignedNodeId = some n.id
    · exact Or.inr (by simp only [Job.cleared, setNull]; rw [if_pos hn])
    · exact Or.inl (by simp only [Job.cleared, setNull]; rw [if_neg hn])

/-- A job that a transaction has read before its end has shown no outcome to it. -/
theorem blank_of_read (h : (testifying app tokens).Since req tx db) (hblank : Blank db) {w : Cond}
    {old : Job} (hread : tx.Read w (.job old)) (hterm : old.status.isTerminal = false) :
    old.exitCode = none ∧ old.errorMessage = none ∧
      (old.status = .queued → old.assignedNodeId = none) := by
  obtain ⟨e, he, -, hget, -⟩ := hread
  have hblank' : Blank e.db := h.held he (I := Blank) (fun _ _ _ hr => hr.2.1) hblank
  exact hblank' _ old (Db.get_job_iff.1 hget) hterm

/-- What the status that a completion writes says of the exit code. -/
theorem exitCode_of_target (j : Job) (exitCode : Int) :
    (completionTarget j exitCode = .completed → exitCode = 0) ∧
      (completionTarget j exitCode = .failed → exitCode ≠ 0) ∧
      (completionTarget j exitCode = .cancelled → j.cancelRequestedAt.isSome = true) := by
  unfold completionTarget
  split
  · rename_i hflag
    exact ⟨fun h => (by cases h), fun h => (by cases h), fun _ => hflag⟩
  · split
    · rename_i hzero
      exact ⟨fun _ => hzero, fun h => (by cases h), fun h => by cases h⟩
    · rename_i hne
      exact ⟨fun h => (by cases h), fun _ => hne, fun h => by cases h⟩

/-- What a completion has read of its job, and what has become of the job since. -/
theorem read_of_completion (h : (testifying app tokens).Since req tx db)
    (hown : Owned app tokens db) (hblank : Blank db) {m id : Uuid} {n : Node} {old cur : Job}
    (hn : AsNode app tx (some (tokens m)) n) (hread : tx.Read (.byKey (.job id)) (.job old))
    (hassign : old.assignedNodeId = some n.id) (hterm : old.status.isTerminal = false)
    (hcur : db.job id = some cur) :
    old.exitCode = none ∧ old.errorMessage = none ∧
      (cur.assignedNodeId = some m ∨ cur.assignedNodeId = none) ∧
      (old.cancelRequestedAt.isSome = true → cur.cancelRequestedAt.isSome = true) := by
  have hid := id_of_read_job hread
  subst hid
  have hnode := id_of_asNode h (fun _ _ _ hr => hr.1) hown hn
  obtain ⟨hexit, hmessage, hqueued⟩ := blank_of_read h hblank hread hterm
  obtain ⟨e, he, -, hget, -⟩ := hread
  have hold := Db.get_job_iff.1 hget
  have hne : old.status ≠ .queued := fun hq => by
    rw [hqueued hq] at hassign
    cases hassign
  have hkept : ∃ j, db.job old.id = some j ∧ j.status ≠ .queued ∧
      (j.assignedNodeId = some n.id ∨ j.assignedNodeId = none) ∧
      (old.cancelRequestedAt.isSome = true → j.cancelRequestedAt.isSome = true) := by
    refine h.keeps he (I := fun d => ∃ j, d.job old.id = some j ∧ j.status ≠ .queued ∧
      (j.assignedNodeId = some n.id ∨ j.assignedNodeId = none) ∧
      (old.cancelRequestedAt.isSome = true → j.cancelRequestedAt.isSome = true))
      (fun tx' a b _ hab hI => ?_) ⟨old, hold, hne, Or.inl hassign, fun hf => hf⟩
    obtain ⟨j, hj, hne, hstay, hflag⟩ := hI
    obtain ⟨j', hj', hne', hstay', hflag'⟩ := hab.2.2 _ j hj hne
    refine ⟨j', hj', hne', ?_, fun hf => hflag' (hflag hf)⟩
    rcases hstay' with hsame | hnone
    · rw [hsame]
      exact hstay
    · exact Or.inr hnone
  obtain ⟨j, hj, -, hstay, hflag⟩ := hkept
  rw [hcur, Option.some.injEq] at hj
  subst hj
  exact ⟨hexit, hmessage, hnode ▸ hstay, hflag⟩

end GpuNetwork

namespace GpuNetwork.Agent

open ReadCommitted ReadCommitted.Spec Machine

/-! ## The daemon -/

/-- What the daemon sends about a job it has found out by running it. -/
structure Daemon.Told (d : Daemon) : Prop where
  posted : ∀ (k : Nat) (r : JobRun) (report : Report) (call : Option Nat),
    d.runs[k]? = some r → r.stage = .completing report call → (r.job.jobId, report) ∈ d.reports
  ran : ∀ id report, (id, report) ∈ d.reports → ∃ (k : Nat) (r : JobRun),
    d.runs[k]? = some r ∧ r.job.jobId = id ∧ r.isOpen = false
  ended : ∀ id report, (id, report) ∈ d.reports →
    ∃ (e : DockerEnd) (ctxErr : Option CtxErr), report = completion e.result ctxErr

section Daemons

variable {d d' : Daemon}

/-- No report is added, and no goroutine begins to report. -/
theorem Daemon.Told.kept (h : d.Told) (hreports : d'.reports = d.reports)
    (hafter : ∀ (k : Nat) (r : JobRun), d.runs[k]? = some r →
      ∃ r', d'.runs[k]? = some r' ∧ r.Onward r')
    (hbefore : ∀ (k : Nat) (r' : JobRun) (report : Report) (call : Option Nat),
      d'.runs[k]? = some r' → r'.stage = .completing report call →
      ∃ (r : JobRun) (call : Option Nat), d.runs[k]? = some r ∧
        r.stage = .completing report call ∧ r'.job = r.job) : d'.Told := by
  refine ⟨fun k r' report call hk hstage => ?_, fun id report hmem => ?_, ?_⟩
  · obtain ⟨r, call', hr, hstage', hjob⟩ := hbefore k r' report call hk hstage
    rw [hreports, hjob]
    exact h.posted k r report call' hr hstage'
  · obtain ⟨k, r, hk, hid, hclosed⟩ := h.ran id report (hreports ▸ hmem)
    obtain ⟨r', hk', hon⟩ := hafter k r hk
    exact ⟨k, r', hk', by rw [hon.job, hid], hon.closed hclosed⟩
  · rw [hreports]
    exact h.ended

theorem Daemon.Told.same (h : d.Told) (hreports : d'.reports = d.reports)
    (hruns : d'.runs = d.runs) : d'.Told :=
  h.kept hreports (fun _ r hk => ⟨r, hruns ▸ hk, JobRun.Onward.refl⟩)
    fun _ r _ call hk hstage => ⟨r, call, hruns ▸ hk, hstage, rfl⟩

/-- One goroutine goes on. -/
theorem Daemon.Told.set (h : d.Told) {k : Nat} {r r' : JobRun} (hk : d.runs[k]? = some r)
    (hon : r.Onward r') (hreports : d'.reports = d.reports) (hruns : d'.runs = d.runs.set k r')
    (hstage : ∀ report call, r'.stage = .completing report call →
      ∃ call, r.stage = .completing report call) : d'.Told := by
  refine h.kept hreports (fun j x hj => ?_) fun j x' report call hj hcompleting => ?_
  · rw [hruns, List.getElem?_set]
    split
    · rename_i hkj
      rw [hkj, hj, Option.some.injEq] at hk
      rw [if_pos (hkj ▸ (List.getElem?_eq_some_iff.1 hj).1)]
      exact ⟨r', rfl, hk ▸ hon⟩
    · exact ⟨x, hj, JobRun.Onward.refl⟩
  · rw [hruns] at hj
    rcases getElem?_set_cases hj with ⟨rfl, rfl⟩ | ⟨-, hold⟩
    · obtain ⟨call', hr⟩ := hstage report call hcompleting
      exact ⟨r, call', hk, hr, hon.job⟩
    · exact ⟨x', call, hold, hcompleting, rfl⟩

theorem JobRun.stage_canceled (r : JobRun) : r.canceled.stage = r.stage := by
  unfold JobRun.canceled
  split <;> rfl

theorem told_cancel (h : d.Told) (k : Nat) : (d.cancel k).Told := by
  unfold Daemon.cancel
  cases hk : d.runs[k]? with
  | none => exact h
  | some r =>
    refine h.set hk JobRun.onward_canceled rfl rfl fun report call hstage => ⟨call, ?_⟩
    rwa [JobRun.stage_canceled] at hstage

theorem told_afterHeartbeat (h : d.Told) (c : Option Uuid) : (d.afterHeartbeat c).Told := by
  have hheard : Daemon.Told { d with heard := d.heard ++ c.toList } := h.same rfl rfl
  unfold Daemon.afterHeartbeat
  dsimp only
  split
  · split
    · exact (told_cancel hheard _).same rfl rfl
    · exact hheard.same rfl rfl
  · exact hheard.same rfl rfl

theorem told_launch (h : d.Told) (job : JobAssignment) (claim : Nat) :
    (d.launch job claim).Told := by
  refine h.kept rfl (fun k r hk => ⟨r, ?_, JobRun.Onward.refl⟩) fun k r report call hk hstage => ?_
  · exact (List.getElem?_append_left (List.getElem?_eq_some_iff.1 hk).1).trans hk
  · rcases getElem?_concat_cases hk with hold | ⟨-, rfl⟩
    · exact ⟨r, call, hold, hstage, rfl⟩
    · cases hstage

theorem told_enter (h : d.Told) {k : Nat} {r : JobRun} {stage : Stage}
    (hk : d.runs[k]? = some r) (hclosed : ({ r with stage } : JobRun).isOpen = false)
    (hstage : ∀ report call, stage = .completing report call →
      ∃ call, r.stage = .completing report call) : (d.enter k r stage).Told :=
  h.set hk (r.onward_closed hclosed) rfl rfl hstage

/-- **What a daemon sends about a job it has found out by running it**, whatever it does. -/
theorem told_act (h : d.Told) {a : DaemonAct} (ha : d.act a = some d') : d'.Told := by
  have hgrows := Daemon.grows_act ha
  cases a with
  | tick =>
    simp only [Daemon.act] at ha
    split at ha <;> cases ha
    exact h.same rfl rfl
  | callFails =>
    simp only [Daemon.act] at ha
    split at ha <;> cases ha
    · exact h.same rfl rfl
    · exact h.same rfl rfl
  | starts k =>
    simp only [Daemon.act] at ha
    split at ha
    · rename_i r hk
      split at ha <;> cases ha
      rename_i hlaunched
      have hstart : r.Onward { r with stage := .running, ctxErr := none } :=
        ⟨rfl, rfl, fun _ => by simp [JobRun.isOpen, hlaunched]⟩
      refine h.set hk ?_ rfl rfl fun report call hstage => ?_
      · split
        · exact hstart.trans JobRun.onward_canceled
        · exact hstart
      · split at hstage
        · rw [JobRun.stage_canceled] at hstage
          cases hstage
        · cases hstage
    · cases ha
  | deadline k =>
    simp only [Daemon.act] at ha
    split at ha
    · rename_i r hk
      split at ha <;> cases ha
      have hended : r.Onward { r with ctxErr := some .deadlineExceeded } := ⟨rfl, rfl, id⟩
      exact h.set hk hended rfl rfl fun report call hstage => ⟨call, hstage⟩
    · cases ha
  | runnerEnds k e =>
    simp only [Daemon.act] at ha
    split at ha
    · rename_i r hk
      split at ha <;> cases ha
      refine ⟨fun j x report call hj hstage => ?_, fun id report hmem => ?_,
        fun id report hmem => ?_⟩
      · rcases getElem?_set_cases hj with ⟨rfl, rfl⟩ | ⟨-, hold⟩
        · cases hstage
          exact List.mem_append_right _ (List.mem_singleton_self _)
        · exact List.mem_append_left _ (h.posted j x report call hold hstage)
      · rcases List.mem_append.1 hmem with hold | hnew
        · obtain ⟨j, x, hj, hid, hclosed⟩ := h.ran id report hold
          obtain ⟨x', hj', hon⟩ := hgrows.run hj
          exact ⟨j, x', hj', by rw [hon.job, hid], hon.closed hclosed⟩
        · cases List.mem_singleton.1 hnew
          exact ⟨k, _, List.getElem?_set_self (List.getElem?_eq_some_iff.1 hk).1, rfl, rfl⟩
      · rcases List.mem_append.1 hmem with hold | hnew
        · exact h.ended id report hold
        · cases List.mem_singleton.1 hnew
          exact ⟨e, r.ctxErr, rfl⟩
    · cases ha
  | completeFails k =>
    simp only [Daemon.act] at ha
    split at ha
    · rename_i r hk
      split at ha <;> cases ha
      exact told_enter h hk rfl fun report call hstage => by cases hstage
    · cases ha
  | returns k =>
    simp only [Daemon.act] at ha
    split at ha
    · rename_i r hk
      split at ha <;> cases ha
      exact h.set hk (r.onward_closed rfl) rfl rfl fun report call hstage => by cases hstage
    · cases ha
  | signal =>
    cases ha
    refine h.kept rfl (fun k r hk => hgrows.run hk) fun k r' report call hk hstage => ?_
    rw [List.getElem?_map] at hk
    obtain ⟨r, hr, rfl⟩ := Option.map_eq_some_iff.1 hk
    exact ⟨r, call, hr, JobRun.stage_canceled r ▸ hstage, JobRun.onward_canceled.job⟩
  | exits =>
    cases ha
    refine h.kept rfl (fun k r hk => hgrows.run hk) fun k r' report call hk hstage => ?_
    rw [List.getElem?_map] at hk
    obtain ⟨r, hr, rfl⟩ := Option.map_eq_some_iff.1 hk
    unfold JobRun.ended at hstage
    split at hstage
    · cases hstage
    · rename_i hreturned
      rw [hreturned] at hstage
      cases hstage
    · cases hstage
  | boots =>
    simp only [Daemon.act] at ha
    split at ha <;> cases ha
    exact h.same rfl rfl

end Daemons

/-! ## One step -/

variable {app : App} {tokens : Uuid → Str} {s s' : Fleet} {m : FleetAct}

theorem told_step (hI : ∀ n, (s.daemons n).Told) (h : Happens app tokens s m s') (n : Uuid) :
    (s'.daemons n).Told := by
  have hput : ∀ {t : Fleet} {n' : Uuid} {d : Daemon}, t.daemons = s.daemons → d.Told →
      ((t.put n' d).daemons n).Told := by
    intro t n' d ht hd
    simp only [Fleet.put, Function.update_apply, ht]
    split
    · exact hd
    · exact hI n
  cases h with
  | server hforeign ht => exact hI n
  | daemon ha => exact hput rfl (told_act (hI _) ha)
  | sendsHeartbeat hturn => exact hput rfl ((hI _).same rfl rfl)
  | sendsClaim hturn => exact hput rfl ((hI _).same rfl rfl)
  | hears hturn hi hprog => exact hput rfl (told_afterHeartbeat (hI _) _)
  | hearsError hturn => exact hput rfl ((hI _).same rfl rfl)
  | launches hturn hi hprog => exact hput rfl (told_launch (hI _) _ _)
  | findsNoJob hturn hi hprog => exact hput rfl ((hI _).same rfl rfl)
  | claimsInVain hturn => exact hput rfl ((hI _).same rfl rfl)
  | posts hk hstage hp =>
    refine hput rfl (told_enter (hI _) hk rfl fun report call hposted => ⟨none, ?_⟩)
    cases hposted
    exact hstage
  | isRejected hk hstage => exact hput rfl (told_enter (hI _) hk rfl fun _ _ hs => by cases hs)
  | isAccepted hk hstage hi hprog =>
    exact hput rfl (told_enter (hI _) hk rfl fun _ _ hs => by cases hs)
  | isRefused hk hstage => exact hput rfl (told_enter (hI _) hk rfl fun _ _ hs => by cases hs)

theorem reports_act {d d' : Daemon} {a : DaemonAct} (h : d.act a = some d') :
    d'.reports = d.reports ∨ ∃ (k : Nat) (r : JobRun) (report : Report), d.runs[k]? = some r ∧
      r.stage = .running ∧ d'.reports = d.reports ++ [(r.job.jobId, report)] := by
  cases a with
  | runnerEnds k e =>
    simp only [Daemon.act] at h
    split at h
    · rename_i r hk
      split at h <;> cases h
      rename_i hstage
      exact Or.inr ⟨k, r, _, hk, hstage, rfl⟩
    · cases h
  | _ =>
    left
    simp only [Daemon.act] at h
    (try split at h) <;> (try split at h) <;> cases h <;> rfl

theorem reports_afterHeartbeat (d : Daemon) (c : Option Uuid) :
    (d.afterHeartbeat c).reports = d.reports := by
  have hcancel : ∀ (d : Daemon) (k : Nat), (d.cancel k).reports = d.reports := by
    intro d k
    unfold Daemon.cancel
    split <;> rfl
  unfold Daemon.afterHeartbeat
  dsimp only
  split
  · split
    · exact hcancel _ _
    · rfl
  · rfl

/-- **A step adds no report**, or that of a job which has been running. -/
theorem reports_cases (h : Happens app tokens s m s') (n : Uuid) :
    (s'.daemons n).reports = (s.daemons n).reports ∨
    ∃ (k : Nat) (r : JobRun) (report : Report), (s.daemons n).runs[k]? = some r ∧
      r.stage = .running ∧
      (s'.daemons n).reports = (s.daemons n).reports ++ [(r.job.jobId, report)] := by
  have hput : ∀ {t : Fleet} {n' : Uuid} {d : Daemon}, t.daemons = s.daemons →
      d.reports = (s.daemons n').reports →
      ((t.put n' d).daemons n).reports = (s.daemons n).reports := by
    intro t n' d ht hd
    simp only [Fleet.put, Function.update_apply, ht]
    split
    · rename_i hn
      rw [hd, hn]
    · rfl
  cases h with
  | server hforeign ht => exact Or.inl rfl
  | daemon ha =>
    rename_i n' a d
    by_cases hn : n = n'
    · subst hn
      simp only [Fleet.put, Function.update_self]
      exact reports_act ha
    · exact Or.inl (by simp only [Fleet.put, Function.update_of_ne hn])
  | hears hturn hi hprog => exact Or.inl (hput rfl (reports_afterHeartbeat _ _))
  | _ => exact Or.inl (hput rfl rfl)

theorem reports_grow (h : Happens app tokens s m s') {n : Uuid} {x : Uuid × Report}
    (hx : x ∈ (s.daemons n).reports) : x ∈ (s'.daemons n).reports := by
  rcases reports_cases h n with hsame | ⟨k, r, report, -, -, hmore⟩
  · rw [hsame]
    exact hx
  · rw [hmore]
    exact List.mem_append_left _ hx

/-! ## Reports and the store -/

/-- The message of the job is the note of a cancel, which somebody has asked for. -/
def Noted (app : App) (s : Fleet) (id : Uuid) (j : Job) : Prop :=
  j.errorMessage = some cancelledByUser ∧ CancelRequested app s.server id

/-- The columns of the job that tell how it has ended are backed by a report or a request. -/
structure Backed (app : App) (s : Fleet) (id : Uuid) (j : Job) : Prop where
  outcome : ∀ code, j.exitCode = some code → ∃ n report, (id, report) ∈ (s.daemons n).reports ∧
    report.exitCode = code ∧ (j.assignedNodeId = some n ∨ j.assignedNodeId = none) ∧
    (j.errorMessage = report.errorMessage ∨ Noted app s id j)
  silent : j.exitCode = none → j.errorMessage = none ∨ Noted app s id j
  completed : j.status = .completed → j.exitCode = some 0
  failed : j.status = .failed → ∃ code, j.exitCode = some code ∧ code ≠ 0
  flagged : j.cancelRequestedAt.isSome = true → CancelRequested app s.server id
  cancelled : j.status = .cancelled → CancelRequested app s.server id

/-- What is so in every state. -/
structure Testified (app : App) (tokens : Uuid → Str) (db : Database) (clock : Time) (s : Fleet) :
    Prop extends Custody app tokens db clock s where
  believed : (testifying app tokens).Ok s.server
  blank : Blank s.server.db
  told : ∀ n, (s.daemons n).Told
  /-- No daemon reports a job twice. -/
  once : ∀ n, ((s.daemons n).reports.map Prod.fst).Nodup
  sent : ∀ (i : Nat) (th : Pending) (bearer : Option Str) (id : Uuid) (p : CompleteJobRequest),
    s.server.threads[i]? = some th → th.req = .completeJob bearer id p →
    ∃ n report, bearer = some (tokens n) ∧ (id, report) ∈ (s.daemons n).reports ∧
      completeRequest report = some p
  backed : ∀ id j, s.server.db.job id = some j → Backed app s id j

/-- No job is reported by two daemons, or in two ways. -/
theorem Testified.unique {db : Database} (hdb : QueuedUnassigned db) {clock : Time}
    (h : Testified app tokens db clock s) {n n' id : Uuid} {report report' : Report}
    (hn : (id, report) ∈ (s.daemons n).reports) (hn' : (id, report') ∈ (s.daemons n').reports) :
    n = n' ∧ report = report' := by
  obtain ⟨k, r, hk, hid, -⟩ := (h.told n).ran id report hn
  obtain ⟨k', r', hk', hid', -⟩ := (h.told n').ran id report' hn'
  obtain ⟨rfl, -⟩ := h.linked.noJobRunTwice hdb h.reach n n' k k' r r' hk hk' (hid.trans hid'.symm)
  have hsame := List.inj_on_of_nodup_map (h.once n) hn hn' rfl
  exact ⟨rfl, congrArg Prod.snd hsame⟩

theorem Backed.later (h : Happens app tokens s m s') {id : Uuid} {j : Job}
    (hj : Backed app s id j) : Backed app s' id j := by
  have hrequested : CancelRequested app s.server id → CancelRequested app s'.server id := by
    intro hr
    rcases server_cases h with he | ⟨l, hl, -⟩
    · exact he ▸ hr
    · exact cancelRequested_step hl hr
  have hnoted : Noted app s id j → Noted app s' id j := And.imp_right hrequested
  refine ⟨fun code hcode => ?_, fun hnone => (hj.silent hnone).imp_right hnoted, hj.completed,
    hj.failed, fun hflag => hrequested (hj.flagged hflag), fun hc => hrequested (hj.cancelled hc)⟩
  obtain ⟨n, report, hmem, hsame, hnode, hmessage⟩ := hj.outcome code hcode
  exact ⟨n, report, reports_grow h hmem, hsame, hnode, hmessage.imp_right hnoted⟩

/-- The exit code that a job has been reported with. -/
theorem completeRequest_eq {report : Report} {p : CompleteJobRequest}
    (h : completeRequest report = some p) :
    p.exitCode = report.exitCode ∧ p.errorMessage = report.errorMessage := by
  unfold completeRequest at h
  split at h
  · split at h
    · cases h
      exact ⟨rfl, rfl⟩
    · cases h
  · cases h

/-- The report of the daemon of the node backs what its completion writes. -/
theorem Backed.completedBy {id n : Uuid} {old cur : Job} {report : Report}
    {p : CompleteJobRequest} {now : Time} (hcur : Backed app s id cur)
    (hexit : old.exitCode = none) (hnone : old.errorMessage = none)
    (hallowed : (old.status, completionTarget old p.exitCode) ∈ allowedTransitions)
    (hmem : (id, report) ∈ (s.daemons n).reports) (hp : completeRequest report = some p)
    (hunique : ∀ n' report', (id, report') ∈ (s.daemons n').reports → report' = report)
    (hnode : cur.assignedNodeId = some n ∨ cur.assignedNodeId = none)
    (hflag : old.cancelRequestedAt.isSome = true → cur.cancelRequestedAt.isSome = true) :
    Backed app s id (old.merge (old.terminated (completionTarget old p.exitCode)
      (some p.exitCode) p.errorMessage now) cur) := by
  obtain ⟨hcode, hmessage⟩ := completeRequest_eq hp
  obtain ⟨hcompleted, hfailed, hcancelled⟩ := exitCode_of_target old p.exitCode
  generalize hj : old.merge _ cur = j
  have hstatus : j.status = completionTarget old p.exitCode :=
    hj ▸ status_merge_terminated (ne_of_allowed hallowed)
  have hexit' : j.exitCode = some p.exitCode := by
    simp [← hj, Job.merge, Job.terminated, hexit, col]
  have hnode' : j.assignedNodeId = cur.assignedNodeId := by simp [← hj, Job.merge, Job.terminated]
  have hflag' : j.cancelRequestedAt = cur.cancelRequestedAt := by
    simp [← hj, Job.merge, Job.terminated]
  have hmessage' : j.errorMessage = col none p.errorMessage cur.errorMessage := by
    rw [← hnone, ← hj]
    rfl
  refine ⟨fun code hsome => ?_, fun hno => ?_, fun hs => ?_, fun hs => ?_,
    fun hs => ?_, fun hs => ?_⟩
  · rw [hexit', Option.some.injEq] at hsome
    refine ⟨n, report, hmem, hcode ▸ hsome, hnode' ▸ hnode, ?_⟩
    by_cases hempty : p.errorMessage = none
    · -- nothing is written over the message that is there
      rw [hempty, col_self] at hmessage'
      rw [Noted, hmessage']
      cases hcurrent : cur.exitCode with
      | none =>
        refine (hcur.silent hcurrent).imp_left fun hsilent => ?_
        rw [hsilent, ← hmessage, hempty]
      | some code' =>
        obtain ⟨n', report', hmem', -, -, hsays⟩ := hcur.outcome code' hcurrent
        exact hunique n' report' hmem' ▸ hsays
    · left
      rw [hmessage', col_of_ne hempty, hmessage]
  · rw [hexit'] at hno
    cases hno
  · rw [hexit', hcompleted (hstatus ▸ hs)]
  · exact ⟨p.exitCode, hexit', hfailed (hstatus ▸ hs)⟩
  · exact hcur.flagged (hflag' ▸ hs)
  · exact hcur.flagged (hflag (hcancelled (hstatus ▸ hs)))

/-- The request backs what a cancel in the queue writes, also over a job that has ended since. -/
theorem Backed.cancelledBy {id : Uuid} {old cur : Job} {now : Time} (hcur : Backed app s id cur)
    (hexit : old.exitCode = none) (hnone : old.errorMessage = none) (hqueued : old.status = .queued)
    (hrequested : CancelRequested app s.server id) :
    Backed app s id
      (old.merge (old.terminated .cancelled none (some cancelledByUser) now) cur) := by
  generalize hj : old.merge _ cur = j
  have hstatus : j.status = .cancelled := hj ▸ status_merge_terminated (by rw [hqueued]; simp)
  have hexit' : j.exitCode = cur.exitCode := by simp [← hj, Job.merge, Job.terminated, hexit]
  have hnode : j.assignedNodeId = cur.assignedNodeId := by simp [← hj, Job.merge, Job.terminated]
  have hflag : j.cancelRequestedAt = cur.cancelRequestedAt := by
    simp [← hj, Job.merge, Job.terminated]
  have hmessage : j.errorMessage = some cancelledByUser := by
    simp [← hj, Job.merge, Job.terminated, hnone, col]
  have hnoted : Noted app s id j := ⟨hmessage, hrequested⟩
  refine ⟨fun code hcode => ?_, fun _ => Or.inr hnoted, fun hs => ?_, fun hs => ?_, fun hs => ?_,
    fun _ => hrequested⟩
  · obtain ⟨n, report, hmem, hsame, hstays, -⟩ := hcur.outcome code (hexit' ▸ hcode)
    exact ⟨n, report, hmem, hsame, hnode ▸ hstays, Or.inr hnoted⟩
  · rw [hstatus] at hs
    cases hs
  · rw [hstatus] at hs
    cases hs
  · exact hcur.flagged (hflag ▸ hs)

/-- **What a commit makes of the end of a job is backed**: by the report that is being
committed, by the cancel that is, or as it was. -/
theorem backed_of_commits {db : Database} (hdb : QueuedUnassigned db) {clock : Time}
    (hI : Testified app tokens db clock s) (hown : Owned app tokens s.server.db)
    (h : Happens app tokens s m s') {l : Label Request} {i : Nat} {th th' : Pending}
    (hc : Commits s.server l i th) (hths : s'.server.threads = s.server.threads.set i th')
    (hreq' : th'.req = th.req) (hses : th'.ses = th.ses.committed) {id : Uuid} {j' : Job}
    (hj' : (th.ses.tx.view s.server.db).job id = some j') : Backed app s' id j' := by
  have hcom := hI.believed.committing hc
  have hrequested : ∀ {event : Event}, Cancels th.req id event →
      CancelRequested app s'.server id :=
    fun hcancel => cancelRequested_of_commits hI.ok hc hths hreq' hses hcancel
  have hold : ∀ {j : Job}, s.server.db.job id = some j → Backed app s' id j :=
    fun hj => (hI.backed id _ hj).later h
  have hstep := job_step hcom.of_also id
  rw [hj'] at hstep
  generalize hb : s.server.db.job id = o at hstep
  cases hstep with
  | same => exact hold hb
  | submitted hreq hu hid hj =>
    rw [hj]
    exact ⟨fun _ hcode => (by cases hcode), fun _ => Or.inl rfl, fun hs => (by cases hs),
      fun hs => (by cases hs), fun hs => (by cases hs), fun hs => by cases hs⟩
  | claimed hreq hn hdrain hmiss hclaim hfound hw =>
    rename_i bearer n j now
    have hj := hold hb
    have hexit := (hI.blank id j hb (by rw [status_of_claimable hclaim]; rfl)).1
    refine ⟨fun code hcode => ?_, hj.silent, fun hs => ?_, fun hs => ?_, hj.flagged, fun hs => ?_⟩
    · rw [show (j.claimedBy n.id now).exitCode = j.exitCode from rfl, hexit] at hcode
      cases hcode
    · cases hs
    · cases hs
    · cases hs
  | completed hreq hn hread hassign hallowed hw =>
    rename_i bearer p n old cur now
    obtain ⟨n', report, rfl, hmem, hp⟩ := hI.sent i th bearer id p hc.1 hreq
    obtain ⟨hexit, hnone, hnode, hflag⟩ := read_of_completion hcom.toSince hown hI.blank hn hread
      hassign (isTerminal_of_allowed hallowed) hb
    refine Backed.later h ?_
    exact (hI.backed id cur hb).completedBy hexit hnone hallowed hmem hp
      (fun n'' report' hmem' => (hI.unique hdb hmem' hmem).2) hnode hflag
  | cancelled hreq hread hstatus hw =>
    obtain ⟨hexit, hnone, -⟩ := blank_of_read hcom.toSince hI.blank hread (by rw [hstatus]; rfl)
    exact (hold hb).cancelledBy hexit hnone hstatus (hrequested hreq)
  | cancelRequested hreq hread hstatus hnone hw =>
    have hcur := hold hb
    simp only [Job.merge, Job.cancelRequested, col_self]
    exact ⟨hcur.outcome, hcur.silent, hcur.completed, hcur.failed, fun _ => hrequested hreq,
      hcur.cancelled⟩
  | nodeDeleted hreq hmiss hw =>
    rename_i caller n j
    have hcur := hold hb
    refine ⟨fun code hcode => ?_, hcur.silent, hcur.completed, hcur.failed, hcur.flagged,
      hcur.cancelled⟩
    obtain ⟨n', report, hmem, hsame, hnode, hmessage⟩ := hcur.outcome code hcode
    refine ⟨n', report, hmem, hsame, ?_, hmessage⟩
    simp only [Job.cleared, setNull]
    split
    · exact Or.inr rfl
    · exact hnode

/-- A goroutine that begins to report has not reported before. -/
theorem reportedOnce_step {db : Database} (hdb : QueuedUnassigned db) {clock : Time}
    (hI : Testified app tokens db clock s) (h : Happens app tokens s m s') (n : Uuid) :
    ((s'.daemons n).reports.map Prod.fst).Nodup := by
  rcases reports_cases h n with hsame | ⟨k, r, report, hk, hstage, hmore⟩
  · rw [hsame]
    exact hI.once n
  · have hnew : r.job.jobId ∉ (s.daemons n).reports.map Prod.fst := by
      intro hmem
      obtain ⟨⟨id, report'⟩, hmem, hid⟩ := List.mem_map.1 hmem
      obtain ⟨k', r', hk', hid', hclosed⟩ := (hI.told n).ran id report' hmem
      obtain ⟨-, rfl⟩ := hI.linked.noJobRunTwice hdb hI.reach n n k k' r r' hk hk'
        (by rw [hid', ← hid])
      rw [hk, Option.some.injEq] at hk'
      rw [← hk', JobRun.isOpen, hstage] at hclosed
      cases hclosed
    rw [hmore, List.map_append, List.map_singleton, List.nodup_append]
    refine ⟨hI.once n, List.nodup_singleton _, fun x hx y hy hxy => ?_⟩
    rw [hxy, List.mem_singleton.1 hy] at hx
    exact hnew hx

theorem sent_step {db : Database} {clock : Time} (hI : Testified app tokens db clock s)
    (h : Happens app tokens s m s') (i : Nat) (th' : Pending) (bearer : Option Str) (id : Uuid)
    (p : CompleteJobRequest) (hi : s'.server.threads[i]? = some th')
    (hreq : th'.req = .completeJob bearer id p) : ∃ n report, bearer = some (tokens n) ∧
      (id, report) ∈ (s'.daemons n).reports ∧ completeRequest report = some p := by
  rcases thread_origin h hi with ⟨th, hth, hsame⟩ |
    ⟨-, hforeign | ⟨n, hn⟩ | ⟨n, hn, -⟩ | ⟨n, k, r, report, p', hk, hstage, hp, hn⟩⟩
  · obtain ⟨n, report, hb, hmem, hp⟩ := hI.sent i th bearer id p hth (hsame ▸ hreq)
    exact ⟨n, report, hb, reports_grow h hmem, hp⟩
  · rw [hreq] at hforeign
    cases hforeign
  · rw [hreq] at hn
    cases hn
  · rw [hreq] at hn
    cases hn
  · rw [hreq] at hn
    cases hn
    exact ⟨n, report, rfl, (told_step hI.told h n).posted k r report _ hk hstage, hp⟩

theorem testified_step {db : Database} (hdb : QueuedUnassigned db) {clock : Time}
    (hI : Testified app tokens db clock s) (hown : Owned app tokens s.server.db)
    (h : Happens app tokens s m s') : Testified app tokens db clock s' := by
  have hcustody := custody_step hI.toCustody hown h
  rcases server_cases h with he | ⟨l, hl, -⟩
  · exact { hcustody with
      believed := he ▸ hI.believed
      blank := he ▸ hI.blank
      told := told_step hI.told h
      once := reportedOnce_step hdb hI h
      sent := sent_step hI h
      backed := fun id j hj => (hI.backed id j (he ▸ hj)).later h }
  · have hkept : (testifying app tokens).Kept s.server l s'.server := by
      refine ⟨fun _ => trivial, fun i th hc hcom j tj _ _ _ => ⟨hown, hI.blank, ?_⟩⟩
      rw [db_of_commits hc hl]
      exact settles_of_committing hcom.of_also
    have hstore : Blank s'.server.db ∧
        ∀ id j, s'.server.db.job id = some j → Backed app s' id j := by
      rcases hI.believed.db_cases hl with hsame | ⟨i, th, th', hc, hcom, hview, hths, hreq, hses⟩
      · rw [hsame]
        exact ⟨hI.blank, fun id j hj => (hI.backed id j hj).later h⟩
      · rw [hview]
        exact ⟨blank_of_committing hcom.of_also hI.blank, fun id j hj =>
          backed_of_commits hdb hI hown h hc hths hreq hses hj⟩
    exact { hcustody with
      believed := ok_step (rightful_valid app _) hI.believed hl hkept
      blank := hstore.1
      told := told_step hI.told h
      once := reportedOnce_step hdb hI h
      sent := sent_step hI h
      backed := hstore.2 }

/-! ## Runs -/

/-- A store in which every job is in the queue, as it was submitted. -/
def AllSubmitted (db : Database) : Prop :=
  ∀ id j, db.job id = some j → j.status = .queued ∧ j.assignedNodeId = none ∧
    j.exitCode = none ∧ j.errorMessage = none ∧ j.cancelRequestedAt = none

theorem AllSubmitted.noneRunning {db : Database} (h : AllSubmitted db) : NoneRunning db where
  unassigned id j hj _ := (h id j hj).2.1
  idle id j hj hrun := by
    rw [(h id j hj).1] at hrun
    cases hrun

theorem testified_atRest {db : Database} (hdb : AllSubmitted db) (clock : Time) :
    Testified app tokens db clock (atRest db clock) where
  toCustody := custody_atRest hdb.noneRunning clock
  believed := ok_of_no_threads rfl
  blank id j hj _ := by
    obtain ⟨-, hnode, hexit, hmessage, -⟩ := hdb id j hj
    exact ⟨hexit, hmessage, fun _ => hnode⟩
  told n := ⟨fun k r report call hk => by simp [atRest] at hk,
    fun id report hmem => by simp [atRest] at hmem, fun id report hmem => by simp [atRest] at hmem⟩
  once n := List.nodup_nil
  sent i th bearer id p hi := by simp [atRest, idle] at hi
  backed id j hj := by
    obtain ⟨hstatus, -, hexit, hmessage, hflag⟩ := hdb id j hj
    refine ⟨fun code hcode => ?_, fun _ => Or.inl hmessage, fun hs => ?_, fun hs => ?_,
      fun hs => ?_,
      fun hs => ?_⟩
    · rw [hexit] at hcode
      cases hcode
    · rw [hstatus] at hs
      cases hs
    · rw [hstatus] at hs
      cases hs
    · rw [hflag] at hs
      cases hs
    · rw [hstatus] at hs
      cases hs

/-- **The store and the reports of daemons go together**, in every state. -/
theorem testified_of_run {db : Database} (hdb : AllSubmitted db) {clock : Time}
    (h : Run (Fleet.step app tokens) (TokensOwned app tokens) (atRest db clock) s) :
    Testified app tokens db clock s :=
  h.invariant (Testified app tokens db clock)
    (fun _ _ _ hI ht hs => testified_step hdb.noneRunning.unassigned hI ht (happens_of_step hs))
    (testified_atRest hdb clock)

/-- Only a container that has exited with 0 is reported so. -/
theorem exited_of_completion {e : DockerEnd} {ctxErr : Option CtxErr}
    (h : (completion e.result ctxErr).exitCode = 0) : e = .exited 0 ∧ ctxErr ≠ some .canceled := by
  unfold completion at h
  split at h
  · cases h
  · rename_i hctx
    split at h
    · cases h
    · rename_i hboth
      refine ⟨?_, hctx⟩
      cases e with
      | exited code => exact congrArg DockerEnd.exited h
      | _ => exact absurd ⟨rfl, h⟩ hboth

/-- The daemon of the job's node has reported that the runner had ended the job so.  A cancel may
have put its note in the place of the message. -/
structure EndedBy (app : App) (s : Fleet) (id : Uuid) (j : Job) (n : Uuid) (e : DockerEnd)
    (ctxErr : Option CtxErr) : Prop where
  reported : (id, completion e.result ctxErr) ∈ (s.daemons n).reports
  exitCode : j.exitCode = some (completion e.result ctxErr).exitCode
  node : j.assignedNodeId = some n ∨ j.assignedNodeId = none
  message : j.errorMessage = (completion e.result ctxErr).errorMessage ∨ Noted app s id j

/-- What the store says of the end of the job, those who may say it have said. -/
structure Attested (app : App) (s : Fleet) (id : Uuid) (j : Job) : Prop where
  exitCode : j.exitCode ≠ none → ∃ n e ctxErr, EndedBy app s id j n e ctxErr
  /-- A message without an exit code is the note of a cancel. -/
  silent : j.exitCode = none → j.errorMessage ≠ none → Noted app s id j
  /-- The container of a completed job has exited with 0. -/
  completed : j.status = .completed →
    ∃ n ctxErr, EndedBy app s id j n (.exited 0) ctxErr ∧ ctxErr ≠ some .canceled
  failed : j.status = .failed → j.exitCode ≠ none ∧ j.exitCode ≠ some 0
  cancelled : j.status = .cancelled → CancelRequested app s.server id
  /-- No job is reported by two daemons, or in two ways. -/
  once : ∀ n n' report report', (id, report) ∈ (s.daemons n).reports →
    (id, report') ∈ (s.daemons n').reports → n = n' ∧ report = report'

/-- **The outcome of a job is attested**: a completed job has been run to the end by the daemon
of its node, and a cancelled one has been cancelled by its owner or an administrator, whatever
calls are lost and whatever requests interleave. -/
theorem outcomes_are_attested (app : App) (tokens : Uuid → Str) {db : Database}
    (hdb : AllSubmitted db) (clock : Time)
    (h : Run (Fleet.step app tokens) (TokensOwned app tokens) (atRest db clock) s) :
    ∀ id j, s.server.db.job id = some j → Attested app s id j := by
  have hI := testified_of_run hdb h
  intro id j hj
  have hbacked := hI.backed id j hj
  have hended : ∀ code, j.exitCode = some code → ∃ n e ctxErr, EndedBy app s id j n e ctxErr := by
    intro code hcode
    obtain ⟨n, report, hmem, rfl, hnode, hmessage⟩ := hbacked.outcome code hcode
    obtain ⟨e, ctxErr, rfl⟩ := (hI.told n).ended id report hmem
    exact ⟨n, e, ctxErr, hmem, hcode, hnode, hmessage⟩
  refine ⟨fun hne => ?_, fun hnone hmessage => (hbacked.silent hnone).resolve_left hmessage,
    fun hs => ?_, fun hs => ?_, hbacked.cancelled, fun n n' report report' hn hn' =>
      hI.unique hdb.noneRunning.unassigned hn hn'⟩
  · obtain ⟨code, hcode⟩ := Option.ne_none_iff_exists'.1 hne
    exact hended code hcode
  · have hzero := hbacked.completed hs
    obtain ⟨n, e, ctxErr, hend⟩ := hended 0 hzero
    have hcode := hend.exitCode
    rw [hzero, Option.some.injEq] at hcode
    obtain ⟨rfl, hctx⟩ := exited_of_completion hcode.symm
    exact ⟨n, ctxErr, hend, hctx⟩
  · obtain ⟨code, hcode, hne⟩ := hbacked.failed hs
    rw [hcode]
    exact ⟨by simp, fun he => hne (Option.some.inj he)⟩

/-- The daemon runs the job, its container exits with 0, and the report is answered. -/
def completing : List FleetAct :=
  executing ++ [.daemon 2 (.runnerEnds 0 (.exited 0)), .posts 2 0] ++ serves 2 13 ++ [.confirms 2 0]

theorem outcomes_are_attested_at_completing :
    ∃ s j, Run (Fleet.step plainApp sampleTokens) (TokensOwned plainApp sampleTokens)
      (atRest queuedDb 0) s ∧ s.server.db.job 3 = some j ∧ j.status = .completed ∧
      Attested plainApp s 3 j := by
  obtain ⟨s, hs, hstatus⟩ := Option.bind_eq_some_iff.1 (show
    (play (Fleet.step plainApp sampleTokens) isHeedful (atRest queuedDb 0) completing).bind
      (fun s => (s.server.db.job 3).map Job.status) = some .completed by decide +kernel)
  obtain ⟨j, hj, hcompleted⟩ := Option.map_eq_some_iff.1 hstatus
  have hr : Run (Fleet.step plainApp sampleTokens) (TokensOwned plainApp sampleTokens)
      (atRest queuedDb 0) s := Run.of_play (fun _ _ h => (isHeedful_sound h).1) hs
  have hdb : AllSubmitted queuedDb := by
    intro id j hj
    rw [job_queuedDb hj]
    exact ⟨rfl, rfl, rfl, rfl, rfl⟩
  exact ⟨s, j, hr, hj, hcompleted,
    outcomes_are_attested plainApp sampleTokens hdb 0 hr 3 j hj⟩

end GpuNetwork.Agent
