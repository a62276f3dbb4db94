import GpuNetwork.Commits.Statements

/-!
# The job handlers keep to their shape

* `safe_submitJob`, `safe_claimJob`, `safe_completeJob`, `safe_cancelJob`,
  `safe_forceKillJob`, `safe_pushLogs`.
-/

namespace GpuNetwork

open ReadCommitted ReadCommitted.Spec

variable {app : App} {rely : Rely} {refusals : Prop}

/-- No row of a list of writes is an audit row. -/
theorem target_ne_auditLog_of_empty {ses : Conn} (h : ses.tx.writes = []) :
    ∀ w ∈ ses.tx.writes, ∀ id, w.target ≠ Key.auditLog id := by
  intro w hw
  rw [h] at hw
  simp at hw

theorem target_ne_of_empty {ses : Conn} (h : ses.tx.writes = []) (k : Key) :
    ∀ w ∈ ses.tx.writes, w.target ≠ k := by
  intro w hw
  rw [h] at hw
  simp at hw

/-- After its only commit a request has committed one transaction. -/
theorem past_committed {ses : Conn} (h : ses.past = []) : ses.committed.past = [ses.tx] := by
  rw [Session.committed, h, List.nil_append]

theorem safe_submitJob (caller : Caller) (p : SubmitJobRequest) :
    (platform app rely refusals).Safe (.submitJob caller p) (submitJob app caller p) {} := by
  refine wp_bind (wp_currentUser rfl (fun e => trivial) fun s₁ u h₁ hu => ?_)
  have hw₁ : s₁.tx.writes = [] := h₁.writes
  split
  · trivial
  rename_i hactive
  split
  · trivial
  rename_i hcredit
  refine wp_bind (wp_bind (wp_random fun id => wp_ret.2 (wp_bind (wp_txTime fun t =>
    wp_ret.2 (wp_bind (wp_insert fun s₂ h₂ hf => wp_ret.2 ?_))))))
  have hfresh := hf (target_ne_of_empty hw₁ _)
  have hw₂ : s₂.tx.writes = _ := h₂.writes
  rw [hw₁, List.nil_append] at hw₂
  refine wp_bind (wp_createAudit ?_ fun s₃ a h₃ ha => ?_)
  · simp [hw₂, Write.target, Row.key]
  have hw₃ : s₃.tx.writes = _ := h₃.writes
  rw [hw₂] at hw₃
  refine wp_bind (wp_commitTx ?_ ?_)
  · exact Shape.submitJob (hu.mono fun e he => h₃.log e (h₂.log e he)) (not_not.1 hactive)
      (not_lt.1 hcredit) rfl (hfresh.mono h₃.log) hw₃ ha
  · exact wp_bind (wp_refreshJob rfl trivial fun s₄ j h₄ _ => trivial)

/-- The loop over the candidates of a claim locks one of them, or none. -/
theorem wp_lockFirst {P : Spec Row Key Cond Request ApiError Response} {req : Request}
    {nodeId : Uuid} {capacity : Int} {Q : Option Job → Conn → Prop} {ses : Conn} {rs : List Row}
    (hw : ses.tx.writes = [])
    (hsome : ∀ ses' j, ses.Adds ses' [] →
      ses'.tx.Locked (.claimable nodeId capacity) (.job j) → Q (some j) ses')
    (hnone : ∀ ses', ses.Adds ses' [] → Q none ses') :
    P.Wp req (lockFirst (.claimable nodeId capacity) rs) ses Q := by
  induction rs generalizing ses with
  | nil => exact hnone ses Session.Adds.refl
  | cons r rs ih =>
    refine wp_tryLock hw (fun s₁ x h₁ hl hk => ?_) (fun s₁ h₁ => ?_)
    · obtain ⟨e, he, hg, hh, hm⟩ := hl
      cases x with
      | job j => exact hsome s₁ j h₁ ⟨e, he, hg, hh, hm⟩
      | _ => simp [Cond.holds] at hh
    · have hw₁ : s₁.tx.writes = [] := by rw [h₁.writes, hw]; rfl
      exact ih hw₁ (fun s₂ j h₂ hl => hsome s₂ j (h₁.then_reads h₂) hl)
        (fun s₂ h₂ => hnone s₂ (h₁.then_reads h₂))

theorem Job.claimedBy_ne {j : Job} (h : j.status = .queued) (nodeId : Uuid) (now : Time) :
    Row.job (j.claimedBy nodeId now) ≠ .job j := by
  intro he
  have hs := congrArg Job.status (Row.job.inj he)
  rw [h] at hs
  cases hs

theorem status_of_claimable {nodeId : Uuid} {capacity : Int} {j : Job}
    (h : j.claimable nodeId capacity = true) : j.status = .queued := by
  simp only [Job.claimable, Bool.and_eq_true, decide_eq_true_eq] at h
  exact h.1.1

theorem safe_claimJob (bearer : Option Str) :
    (platform app rely refusals).Safe (.claimJob bearer) (claimJob app bearer) {} := by
  refine wp_bind (wp_currentNode rfl (fun e => trivial) fun s₁ n h₁ hn => ?_)
  have hw₁ : s₁.tx.writes = [] := h₁.writes
  refine wp_bind ?_
  unfold claimForNode
  split
  · exact h₁.past
  rename_i hdrain
  refine wp_bind (wp_getRunningForNode hw₁ (fun s₂ j h₂ => ?_) (fun s₂ h₂ hmiss => ?_))
  · exact h₂.past.trans h₁.past
  have hw₂ : s₂.tx.writes = [] := by rw [h₂.writes, hw₁]; rfl
  refine wp_bind (wp_bind (wp_selectAll fun s₃ rs h₃ => wp_ret.2 ?_))
  have hw₃ : s₃.tx.writes = [] := by rw [h₃.writes, hw₂]; rfl
  refine wp_bind (wp_lockFirst hw₃ (fun s₄ j h₄ hlock => ?_) (fun s₄ h₄ => ?_))
  · have hw₄ : s₄.tx.writes = [] := by rw [h₄.writes, hw₃]; rfl
    obtain ⟨-, -, -, hq, -⟩ := id hlock
    have hqueued := status_of_claimable hq
    refine wp_bind (wp_now fun now => wp_ret.2 (wp_bind (wp_flush_of_ne
      (Job.claimedBy_ne hqueued _ _) (target_ne_of_empty hw₄ _) (fun _ _ _ => trivial)
      fun s₅ h₅ _ hrefs => wp_ret.2 ?_)))
    have hw₅ : s₅.tx.writes = _ := h₅.writes
    rw [hw₄, List.nil_append] at hw₅
    -- the foreign key of the assignment keeps the node from being deleted
    have hnode : j.assignedNodeId ≠ some n.id → s₅.tx.Found (.node n.id) := by
      intro hne
      refine hrefs _ ?_ (target_ne_of_empty hw₄ _)
      refine List.mem_map.2 ⟨(1, .node n.id), List.mem_filter.2 ⟨?_, ?_⟩, rfl⟩
      · simp [Schema.refs, Row.refs, Job.claimedBy]
      · simp [Schema.refs, Row.refs, hne]
    refine wp_bind (wp_createAudit ?_ fun s₆ a h₆ ha => ?_)
    · simp [hw₅, Write.target, Row.key]
    have hw₆ : s₆.tx.writes = _ := h₆.writes
    rw [hw₅] at hw₆
    have hlog : ∀ e ∈ s₄.tx.log, e ∈ s₆.tx.log := fun e he => h₆.log e (h₅.log e he)
    have hlog₂ : ∀ e ∈ s₂.tx.log, e ∈ s₆.tx.log :=
      fun e he => hlog e (h₄.log e (h₃.log e he))
    have hpast : s₆.past = [] := by
      rw [h₆.past, h₅.past, h₄.past, h₃.past, h₂.past, h₁.past]
    refine wp_bind (wp_commitTx ?_ ?_)
    · exact Shape.claimJob (hn.mono fun e he => hlog₂ e (h₂.log e he)) hdrain
        (hmiss.mono hlog₂) (hlock.mono hlog) (fun hne => (hnode hne).mono h₆.log) hw₆ ha
    · refine wp_bind (wp_refreshJob rfl trivial fun s₇ j' h₇ hid => wp_ret.2 ?_)
      refine ⟨s₆.tx, ?_, j, n.id, now, _, hw₆, hid.symm⟩
      rw [h₇.past, past_committed hpast]
  · refine wp_bind (wp_rollback (wp_ret.2 ?_))
    have hpast : s₄.past = [] := by rw [h₄.past, h₃.past, h₂.past, h₁.past]
    exact hpast

theorem completionTarget_cases (j : Job) (exitCode : Int) :
    completionTarget j exitCode = .cancelled ∨ completionTarget j exitCode = .completed ∨
      completionTarget j exitCode = .failed := by
  unfold completionTarget
  split
  · exact Or.inl rfl
  · split
    · exact Or.inr (Or.inl rfl)
    · exact Or.inr (Or.inr rfl)

theorem isTerminal_completionTarget (j : Job) (exitCode : Int) :
    (completionTarget j exitCode).isTerminal = true := by
  rcases completionTarget_cases j exitCode with h | h | h <;> rw [h] <;> rfl

theorem Job.terminated_ne {j : Job} {status : JobStatus} (h : status.isTerminal = true)
    (hj : j.status.isTerminal = false) (exitCode : Option Int) (message : Option Str)
    (now : Time) : Row.job (j.terminated status exitCode message now) ≠ .job j := by
  intro he
  have hs : status = j.status := congrArg Job.status (Row.job.inj he)
  rw [hs, hj] at h
  cases h

theorem isTerminal_of_allowed {a b : JobStatus} (h : (a, b) ∈ allowedTransitions) :
    a.isTerminal = false := by
  cases ha : a.isTerminal with
  | false => rfl
  | true => exact absurd h (not_allowed_of_isTerminal ha)

theorem wp_assertTransition {P : Spec Row Key Cond Request ApiError Response} {req : Request}
    {ses : Conn} {Q : Unit → Conn → Prop} {a b : JobStatus}
    (hpost : ∀ e, P.post req (.error e) ses.past)
    (h : (a, b) ∈ allowedTransitions → Q () ses) : P.Wp req (assertTransition a b) ses Q := by
  unfold assertTransition
  split
  · rename_i hab; exact h hab
  · exact hpost _

theorem mem_flushed {old new : Row} {w : Write Row Key} (h : w ∈ flushed old new) :
    w = .update old new := by
  unfold flushed at h
  split at h
  · simp at h
  · exact List.mem_singleton.1 h

theorem target_of_mem_billWrites {hours : Int} {owner : Option User} {w : Write Row Key}
    (h : w ∈ billWrites hours owner) : ∃ id, w.target = .user id := by
  cases owner with
  | none => simp [billWrites] at h
  | some u => rw [mem_flushed h]; exact ⟨u.id, rfl⟩

/-- The flush of the owner's balance, after the job has been written. -/
theorem wp_flushBill {P : Spec Row Key Cond Request ApiError Response} {req : Request}
    {ses : Conn} {Q : Unit → Conn → Prop} {hours : Int} {owner : Option User} {userId : Uuid}
    (hpost : ∀ e, P.post req (.error e) ses.past)
    (hfound : ∀ w ∈ ses.tx.writes, ∀ id, w.target ≠ Key.user id)
    (hmiss : owner = none → ses.tx.Missed (.byKey (.user userId)))
    (hread : ∀ u, owner = some u → ses.tx.Read (.byKey (.user userId)) (.user u))
    (h : ∀ ses', ses.Adds ses' (billWrites hours owner) → Owner ses'.tx hours userId owner →
      Q () ses') :
    P.Wp req (flushBill hours owner) ses Q := by
  cases owner with
  | none => exact h ses Session.Adds.refl (hmiss rfl)
  | some u =>
    refine wp_flush (fun w hw => hfound w hw _) (fun _ _ _ => hpost _) fun s₁ h₁ hf _ => ?_
    exact h s₁ h₁ ⟨(hread u rfl).mono h₁.log, hf⟩

theorem safe_completeJob (bearer : Option Str) (id : Uuid) (p : CompleteJobRequest) :
    (platform app rely refusals).Safe (.completeJob bearer id p) (completeJob app bearer id p)
      {} := by
  refine wp_bind (wp_currentNode rfl (fun e => trivial) fun s₁ n h₁ hn => wp_bind ?_)
  have hw₁ : s₁.tx.writes = [] := h₁.writes
  refine wp_bind (wp_getJobById hw₁ (fun s₂ j h₂ hj _ => ?_) (fun s₂ h₂ => trivial))
  have hw₂ : s₂.tx.writes = [] := by rw [h₂.writes, hw₁]; rfl
  dsimp only
  split
  · trivial
  rename_i hassigned
  refine wp_bind (wp_assertTransition (fun e => trivial) fun hallowed => ?_)
  refine wp_bind (wp_now fun completedAt => wp_ret.2 (wp_bind ?_))
  -- the rest is the same whether the owner is found or not
  have hrest : ∀ (s₃ : Conn) (owner : Option User), s₂.Adds s₃ [] →
      (owner = none → s₃.tx.Missed (.byKey (.user j.userId))) →
      (∀ u, owner = some u → s₃.tx.Read (.byKey (.user j.userId)) (.user u)) →
      (platform app rely refusals).Wp (.completeJob bearer id p) (do
        let now ← utcNow
        flush (.job j) (.job (j.terminated (completionTarget j p.exitCode) (some p.exitCode)
          p.errorMessage now))
        flushBill (billGpuHours (j.startedAt.getD completedAt) completedAt j.gpuCount) owner
        createAudit (terminalEvent (completionTarget j p.exitCode)) (some j.userId)
          { jobId := some j.id, nodeId := some n.id, exitCode := some p.exitCode,
            billedGpuHours :=
              some (billGpuHours (j.startedAt.getD completedAt) completedAt j.gpuCount),
            errorMessage := p.errorMessage }
        commit
        refreshJob j.id) s₃ fun job ses' =>
          (platform app rely refusals).Wp (.completeJob bearer id p)
            (pure (Response.job job)) ses' fun a ses' =>
              (platform app rely refusals).post (.completeJob bearer id p) (.ok a)
                ses'.past := by
    intro s₃ owner h₃ hmiss hread
    have hw₃ : s₃.tx.writes = [] := by rw [h₃.writes, hw₂]; rfl
    refine wp_bind (wp_now fun now => wp_ret.2 (wp_bind (wp_flush_of_ne
      (Job.terminated_ne (isTerminal_completionTarget j _) (isTerminal_of_allowed hallowed) _ _ _)
      (target_ne_of_empty hw₃ _) (fun _ _ _ => trivial) fun s₄ h₄ hfound _ => ?_)))
    have hw₄ : s₄.tx.writes = _ := h₄.writes
    rw [hw₃, List.nil_append] at hw₄
    refine wp_bind (wp_flushBill (fun _ => trivial) ?_ (fun ho => (hmiss ho).mono h₄.log)
      (fun u ho => (hread u ho).mono h₄.log) fun s₅ h₅ howner => ?_)
    · simp [hw₄, Write.target, Row.key]
    have hw₅ : s₅.tx.writes = _ := h₅.writes
    rw [hw₄] at hw₅
    refine wp_bind (wp_createAudit ?_ fun s₆ a h₆ ha => ?_)
    · rw [hw₅]
      intro w hw id
      rcases List.mem_append.1 hw with hw | hw
      · simp only [List.mem_singleton] at hw
        subst hw
        simp [Write.target, Row.key]
      · obtain ⟨uid, hu⟩ := target_of_mem_billWrites hw
        rw [hu]
        simp
    have hw₆ : s₆.tx.writes = _ := h₆.writes
    rw [hw₅, List.append_assoc] at hw₆
    have hlog : ∀ e ∈ s₂.tx.log, e ∈ s₆.tx.log :=
      fun e he => h₆.log e (h₅.log e (h₄.log e (h₃.log e he)))
    have hpast : s₆.past = [] := by
      rw [h₆.past, h₅.past, h₄.past, h₃.past, h₂.past, h₁.past]
    refine wp_bind (wp_commitTx ?_ ?_)
    · refine Shape.completeJob (hn.mono fun e he => hlog e (h₂.log e he)) (hj.mono hlog)
        (not_not.1 hassigned) hallowed rfl ?_ (hfound.mono fun e he => h₆.log e (h₅.log e he))
        hw₆ ha
      cases owner with
      | none => exact howner.mono h₆.log
      | some u => exact ⟨howner.1.mono h₆.log, howner.2.imp (fun h => h) fun h => h.mono h₆.log⟩
    · refine wp_refreshJob rfl trivial fun s₇ j' h₇ hid => wp_ret.2 ⟨s₆.tx, ?_⟩
      rw [h₇.past, past_committed hpast]
  refine wp_getUserById hw₂ (fun s₃ u h₃ hu _ => ?_) (fun s₃ h₃ hm => ?_)
  · exact hrest s₃ (some u) h₃ (fun h => by cases h) (fun u' h => by cases h; exact hu)
  · exact hrest s₃ none h₃ (fun _ => hm) (fun u' h => by cases h)

/-! ## Cancelling -/

/-- The requests that cancel a job accept any error, and an answer that follows one
commit. -/
theorem post_of_cancels {req : Request} {id : Uuid} {event : Event} (h : Cancels req id event)
    (past : List Transaction) :
    (∀ e, (platform app rely refusals).post req (.error e) past) ∧
      ∀ r tx, past = [tx] → (platform app rely refusals).post req (.ok r) past := by
  cases h with
  | cancelJob => exact ⟨fun _ => trivial, fun _ tx hp => ⟨tx, hp⟩⟩
  | forceKillJob => exact ⟨fun _ => trivial, fun _ tx hp => ⟨tx, hp⟩⟩

theorem wp_cancelOrRequestCancel {req : Request} {id : Uuid} {event : Event}
    (hreq : Cancels req id event) {ses : Conn} {j : Job} {u : User} {owner : Uuid}
    {target : Option Uuid} {client : Client} {Q : Job → Conn → Prop}
    (hw : ses.tx.writes = []) (hpast : ses.past = [])
    (hj : ses.tx.Read (.byKey (.job id)) (.job j))
    (h : ∀ ses' j' tx, ses'.past = [tx] → Q j' ses') :
    (platform app rely refusals).Wp req
      (cancelOrRequestCancel j event u owner target client) ses Q := by
  have herr : ∀ {past e}, (platform app rely refusals).post req (.error e) past :=
    fun {past e} => (post_of_cancels hreq past).1 e
  unfold cancelOrRequestCancel
  -- what follows the writes is the same in every case
  have htail : ∀ (s : Conn) (phase : JobStatus), s.past = [] →
      (∀ w ∈ s.tx.writes, ∀ id, w.target ≠ Key.auditLog id) →
      (∀ s' a, s.Adds s' [.insert (.auditLog a)] →
        Logs s'.tx a event (some owner)
          { jobId := some j.id, phase := some phase, actorUserId := some u.id,
            actorEmail := some u.email, targetUserId := target } → Shape app req s'.tx) →
      (platform app rely refusals).Wp req (do
        createAudit event (some owner)
          { jobId := some j.id, phase := some phase, actorUserId := some u.id,
            actorEmail := some u.email, targetUserId := target } client
        commit
        refreshJob j.id) s Q := by
    intro s phase hp hfresh hshape
    refine wp_bind (wp_createAudit hfresh fun s₁ a h₁ ha => ?_)
    refine wp_bind (wp_commitTx (hshape s₁ a h₁ ha) ?_)
    refine wp_refreshJob rfl herr fun s₂ j' h₂ _ => h s₂ j' s₁.tx ?_
    rw [h₂.past, past_committed (h₁.past.trans hp)]
  have hno := target_ne_auditLog_of_empty hw
  cases hs : j.status with
  | queued =>
    refine wp_bind ?_
    unfold cancelWrite
    rw [hs]
    refine wp_bind (wp_now fun now => wp_ret.2 (wp_bind (wp_flush_of_ne
      (Job.terminated_ne rfl (by rw [hs]; rfl) _ _ _) (target_ne_of_empty hw _)
      (fun _ _ _ => herr) fun s₁ h₁ hf _ => wp_ret.2 ?_)))
    have hw₁ : s₁.tx.writes = _ := h₁.writes
    rw [hw, List.nil_append] at hw₁
    refine htail s₁ .queued (h₁.past.trans hpast) (by simp [hw₁, Write.target, Row.key])
      fun s₂ a h₂ ha => ?_
    have hw₂ : s₂.tx.writes = _ := h₂.writes
    rw [hw₁] at hw₂
    exact Shape.cancelQueued hreq (hj.mono fun e he => h₂.log e (h₁.log e he)) hs
      (hf.mono h₂.log) hw₂ ha
  | running =>
    refine wp_bind ?_
    unfold cancelWrite
    rw [hs]
    dsimp only
    split
    · rename_i hnone
      have hne : ∀ now, Row.job (j.cancelRequested now) ≠ .job j := by
        intro now he
        have hc := congrArg Job.cancelRequestedAt (Row.job.inj he)
        rw [hnone] at hc
        cases hc
      refine wp_bind (wp_now fun now => wp_ret.2 (wp_bind (wp_flush_of_ne (hne now)
        (target_ne_of_empty hw _) (fun _ _ _ => herr) fun s₁ h₁ hf _ => wp_ret.2 ?_)))
      have hw₁ : s₁.tx.writes = _ := h₁.writes
      rw [hw, List.nil_append] at hw₁
      refine htail s₁ .running (h₁.past.trans hpast) (by simp [hw₁, Write.target, Row.key])
        fun s₂ a h₂ ha => ?_
      have hw₂ : s₂.tx.writes = _ := h₂.writes
      rw [hw₁] at hw₂
      exact Shape.requestCancel hreq (hj.mono fun e he => h₂.log e (h₁.log e he)) hs hnone
        (hf.mono h₂.log) hw₂ ha
    · rename_i hsome
      refine wp_ret.2 (htail ses .running hpast hno fun s₁ a h₁ ha => ?_)
      have hw₁ : s₁.tx.writes = _ := h₁.writes
      rw [hw, List.nil_append] at hw₁
      exact Shape.cancelAgain hreq (hj.mono h₁.log) hs (Option.isSome_iff_ne_none.2 hsome) hw₁ ha
  | completed => exact wp_bind (wp_assertTransition (fun _ => herr) fun ha =>
      absurd ha (not_allowed_of_isTerminal rfl))
  | failed => exact wp_bind (wp_assertTransition (fun _ => herr) fun ha =>
      absurd ha (not_allowed_of_isTerminal rfl))
  | cancelled => exact wp_bind (wp_assertTransition (fun _ => herr) fun ha =>
      absurd ha (not_allowed_of_isTerminal rfl))

theorem safe_cancelJob (caller : Caller) (id : Uuid) :
    (platform app rely refusals).Safe (.cancelJob caller id) (cancelJob app caller id) {} := by
  refine wp_bind (wp_currentUser rfl (fun e => trivial) fun s₁ u h₁ _ => ?_)
  have hw₁ : s₁.tx.writes = [] := h₁.writes
  refine wp_bind (wp_getJobById hw₁ (fun s₂ j h₂ hj _ => ?_) (fun s₂ h₂ => trivial))
  have hw₂ : s₂.tx.writes = [] := by rw [h₂.writes, hw₁]; rfl
  dsimp only
  split
  · trivial
  · exact wp_bind (wp_cancelOrRequestCancel .cancelJob hw₂ (h₂.past.trans h₁.past) hj
      fun s₃ j' tx hp => ⟨tx, hp⟩)

theorem safe_forceKillJob (caller : Caller) (id : Uuid) :
    (platform app rely refusals).Safe (.forceKillJob caller id) (forceKillJob app caller id)
      {} := by
  refine wp_bind (wp_requireAdmin rfl (fun e => trivial) fun s₁ u h₁ _ => ?_)
  have hw₁ : s₁.tx.writes = [] := h₁.writes
  refine wp_bind (wp_getJobById hw₁ (fun s₂ j h₂ hj _ => ?_) (fun s₂ h₂ => trivial))
  have hw₂ : s₂.tx.writes = [] := by rw [h₂.writes, hw₁]; rfl
  exact wp_bind (wp_cancelOrRequestCancel .forceKillJob hw₂ (h₂.past.trans h₁.past) hj
    fun s₃ j' tx hp => ⟨tx, hp⟩)

/-! ## Logs -/

/-- The row carries one of the entries. -/
def Carries (jobId : Uuid) (entries : List JobLogEntryIn) (l : JobLog) : Prop :=
  l.jobId = jobId ∧ ∃ e ∈ entries,
    l.stream = e.stream ∧ l.content = e.content ∧ l.sequence = e.sequence

/-- Every row `logRows` makes is a log row of the job, with one of the entries. -/
theorem wp_logRows {P : Spec Row Key Cond Request ApiError Response} {req : Request}
    {ses : Conn} {jobId : Uuid} {t : Time} {entries : List JobLogEntryIn}
    {Q : List Row → Conn → Prop}
    (h : ∀ rows, (∀ r ∈ rows, ∃ l, r = Row.jobLog l ∧ Carries jobId entries l) → Q rows ses) :
    P.Wp req (logRows jobId t entries) ses Q := by
  induction entries generalizing Q with
  | nil => exact h [] (by simp)
  | cons e es ih =>
    refine wp_bind (wp_random fun id => wp_ret.2 (wp_bind (ih fun rows hrows => ?_)))
    refine h _ fun r hr => ?_
    rcases List.mem_cons.1 hr with rfl | hr
    · exact ⟨_, rfl, rfl, e, List.mem_cons_self .., rfl, rfl, rfl⟩
    · obtain ⟨l, rfl, hid, e', he', hl⟩ := hrows r hr
      exact ⟨l, rfl, hid, e', List.mem_cons_of_mem _ he', hl⟩

/-- Rows of one table. -/
theorem exists_map_jobLog {rows : List Row} {p : JobLog → Prop}
    (h : ∀ r ∈ rows, ∃ l, r = Row.jobLog l ∧ p l) :
    ∃ logs : List JobLog, rows = logs.map .jobLog ∧ ∀ l ∈ logs, p l := by
  induction rows with
  | nil => exact ⟨[], rfl, by simp⟩
  | cons r rs ih =>
    obtain ⟨l, rfl, hl⟩ := h r (List.mem_cons_self ..)
    obtain ⟨ls, rfl, hls⟩ := ih fun r hr => h r (List.mem_cons_of_mem _ hr)
    exact ⟨l :: ls, rfl, List.forall_mem_cons.2 ⟨hl, hls⟩⟩

theorem safe_pushLogs (bearer : Option Str) (id : Uuid) (entries : List JobLogEntryIn) :
    (platform app rely refusals).Safe (.pushLogs bearer id entries)
      (pushLogs app bearer id entries) {} := by
  refine wp_bind (wp_currentNode rfl (fun e => trivial) fun s₁ n h₁ hn => ?_)
  have hw₁ : s₁.tx.writes = [] := h₁.writes
  split
  · trivial
  rename_i hne
  refine wp_bind (wp_getJobById hw₁ (fun s₂ j h₂ hj hid => ?_) (fun s₂ h₂ => trivial))
  have hw₂ : s₂.tx.writes = [] := by rw [h₂.writes, hw₁]; rfl
  dsimp only
  split
  · trivial
  rename_i hassign
  unfold appendLogs
  rw [if_neg hne]
  refine wp_bind (wp_bind (wp_txTime fun t => wp_ret.2 (wp_bind (wp_logRows
    fun rows hrows => wp_insertNew fun s₃ k new h₃ hnew hpair => wp_ret.2 ?_))))
  have hw₃ : s₃.tx.writes = _ := h₃.writes
  rw [hw₂, List.nil_append] at hw₃
  obtain ⟨logs, rfl, hlogs⟩ := exists_map_jobLog fun r hr => hrows r (hnew r hr)
  rw [hid] at hlogs
  have hseq : logs.Pairwise fun a b => a.sequence ≠ b.sequence := by
    rw [List.pairwise_map] at hpair
    refine hpair.imp_of_mem fun ha hb hclash heq => ?_
    have hsame : (decide ((_ : JobLog).jobId = _) && decide (_ = _)) = false := hclash
    rw [(hlogs _ ha).1, (hlogs _ hb).1, heq] at hsame
    simp at hsame
  refine wp_bind (wp_commitTx (Shape.aside (Aside.pushLogs (hn.mono fun e he =>
    h₃.log e (h₂.log e he)) (hj.mono h₃.log) (not_not.1 hassign) ?_ hlogs hseq)) trivial)
  rw [hw₃, List.map_map]
  rfl

end GpuNetwork
