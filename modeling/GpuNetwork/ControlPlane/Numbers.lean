import GpuNetwork.Accounts.Issuing
import GpuNetwork.Commits.Keeps
import GpuNetwork.Jobs.LogStore
import GpuNetwork.Store.Fits

/-!
# The numbers of a request body

The schemas bound the numbers of a body, each in its own way, and the models give every
column a width.

* `fitKept` — the tables keep their numbers in range.
* `Body`, `Body.InRange` — the bodies with numbers, and when these fit.
* `keeps_of_inRange` — a handler brings rows that fit where its body is in range.
* `NumbersFit`, `numbers_fit_iff` — no request with the body is refused for a number.
-/

namespace GpuNetwork

open ReadCommitted ReadCommitted.Spec

/-! ## The tables -/

/-- What holds of the new and of the current value of a column holds of the value written. -/
theorem col_of {α : Type} [DecidableEq α] {P : α → Prop} {new cur : α} (hnew : P new)
    (hcur : P cur) (old : α) : P (col old new cur) := by
  by_cases h : new = old
  · rwa [col, if_pos h]
  · rwa [col, if_neg h]

theorem fits_user {u : User} : Fits (Row.user u) ↔ fitsInteger u.creditsGpuHours = true := Iff.rfl

theorem fits_node {n : Node} : Fits (Row.node n) ↔
    fitsInteger n.gpuMemoryGb = true ∧ fitsInteger n.gpuCount = true := Bool.and_eq_true_iff

theorem fits_job {j : Job} : Fits (Row.job j) ↔ (fitsInteger j.gpuCount = true ∧
    fitsInteger j.maxDurationSeconds = true) ∧ j.exitCode.all fitsInteger = true := by
  show ((fitsInteger j.gpuCount && fitsInteger j.maxDurationSeconds) &&
    j.exitCode.all fitsInteger) = true ↔ _
  rw [Bool.and_eq_true, Bool.and_eq_true]

theorem fits_nodeMetric {m : NodeMetric} : Fits (Row.nodeMetric m) ↔
    (((fitsInteger m.gpuIndex = true ∧ fitsInteger m.utilizationPct = true) ∧
      fitsBigInteger m.memoryUsedBytes = true) ∧ fitsBigInteger m.memoryTotalBytes = true) ∧
      fitsInteger m.temperatureC = true := by
  show ((((fitsInteger m.gpuIndex && fitsInteger m.utilizationPct) &&
    fitsBigInteger m.memoryUsedBytes) && fitsBigInteger m.memoryTotalBytes) &&
    fitsInteger m.temperatureC) = true ↔ _
  simp only [Bool.and_eq_true]

theorem fitsInteger_iff {x : Int} :
    fitsInteger x = true ↔ -2147483648 ≤ x ∧ x ≤ 2147483647 := by
  simp [fitsInteger]

theorem fitsBigInteger_iff {x : Int} :
    fitsBigInteger x = true ↔ -9223372036854775808 ≤ x ∧ x ≤ 9223372036854775807 := by
  simp [fitsBigInteger]

/-- **The tables keep their numbers in range**: an update takes each column from a row that
fits, and the actions of the foreign keys leave the numbers alone. -/
theorem fitKept : FitKept Row where
  merge := by
    intro old new cur hnew hcur
    show Fits (Row.merge old new cur)
    unfold Row.merge
    split
    · exact col_of (P := fun x => fitsInteger x = true) hnew hcur _
    · exact hcur
    · rename_i j₀ j₁ j₂
      obtain ⟨-, hexit⟩ := fits_job.1 hnew
      obtain ⟨hnums, hexit'⟩ := fits_job.1 hcur
      exact fits_job.2 ⟨hnums, col_of (P := fun x : Option Int => x.all fitsInteger = true)
        hexit hexit' _⟩
    · exact hcur
    · exact hcur
    · exact hcur
    · rename_i m₀ m₁ m₂
      obtain ⟨⟨⟨⟨-, hutil⟩, hused⟩, htotal⟩, htemp⟩ := fits_nodeMetric.1 hnew
      obtain ⟨⟨⟨⟨hgpu, hutil'⟩, hused'⟩, htotal'⟩, htemp'⟩ := fits_nodeMetric.1 hcur
      exact fits_nodeMetric.2 ⟨⟨⟨⟨hgpu, col_of (P := fun x => fitsInteger x = true) hutil hutil' _⟩,
        col_of (P := fun x => fitsBigInteger x = true) hused hused' _⟩,
        col_of (P := fun x => fitsBigInteger x = true) htotal htotal' _⟩,
        col_of (P := fun x => fitsInteger x = true) htemp htemp' _⟩
    · exact hcur
  unref := by
    intro k r r' hr h
    change Row.unref k r = some r' at h
    unfold Row.unref at h
    split at h <;> cases h
    · exact hr
    · exact hr

/-- The rows of a store of the control plane fit their columns. -/
theorem fits_of_reach {app : App} {T : Terms Row Request ApiError Response} {db : Database}
    {clock : Time} {s : System} (hdb : db.Every Fits)
    (h : Reach (controlPlane app) T (idle db clock) s) : s.db.Every Fits :=
  fitting_of_reach fitKept rfl hdb h

/-! ## Bodies -/

/-- A sample as it is stored. -/
def NodeMetricSample.metric (nodeId : Uuid) (recordedAt : Time) (x : NodeMetricSample) :
    NodeMetric :=
  { nodeId, gpuIndex := x.gpuIndex, utilizationPct := x.utilizationPct,
    memoryUsedBytes := x.memoryUsedBytes, memoryTotalBytes := x.memoryTotalBytes,
    temperatureC := x.temperatureC, recordedAt }

/-- The amounts of memory fit their columns. -/
def NodeMetricSample.InRange (x : NodeMetricSample) : Prop :=
  x.memoryUsedBytes ≤ 9223372036854775807 ∧ x.memoryTotalBytes ≤ 9223372036854775807

/-- A sample fits exactly when its amounts of memory do. -/
theorem fits_metric {nodeId : Uuid} {t : Time} {x : NodeMetricSample} :
    Fits (Row.nodeMetric (x.metric nodeId t)) ↔ x.InRange := by
  obtain ⟨hgpu, hgpu'⟩ := x.gpuIndex_range
  obtain ⟨hutil, hutil'⟩ := x.utilizationPct_range
  obtain ⟨htemp, htemp'⟩ := x.temperatureC_range
  have hused := x.memoryUsedBytes_nonneg
  have htotal := x.memoryTotalBytes_nonneg
  rw [fits_nodeMetric]
  simp only [NodeMetricSample.metric, NodeMetricSample.InRange, fitsInteger_iff,
    fitsBigInteger_iff]
  omega

/-- A request body with numbers. -/
inductive Body where
  | submitJob (p : SubmitJobRequest)
  | completeJob (p : CompleteJobRequest)
  | logs (entries : List JobLogEntryIn)
  | registerNode (p : RegisterNodeRequest)
  | metrics (samples : List NodeMetricSample)
  | approve (p : ApproveRequest)

/-- The body of a request. -/
def Request.body : Request → Option Body
  | .submitJob _ p => some (.submitJob p)
  | .completeJob _ _ p => some (.completeJob p)
  | .pushLogs _ _ entries => some (.logs entries)
  | .registerNode _ p => some (.registerNode p)
  | .pushMetrics _ _ samples => some (.metrics samples)
  | .approveUser _ _ p => some (.approve p)
  | _ => none

/-- The numbers the schemas leave open at the top fit their columns. -/
def Body.InRange : Body → Prop
  | .submitJob _ => True
  | .completeJob _ => True
  | .logs entries => ∀ e ∈ entries, e.sequence ≤ 2147483647
  | .registerNode p => p.gpuMemoryGb ≤ 2147483647 ∧ p.gpuCount ≤ 2147483647
  | .metrics samples => ∀ x ∈ samples, x.InRange
  | .approve p => p.creditsGpuHours ≤ 2147483647

/-! ## The handlers -/

variable {app : App}

theorem keeps_createJob (userId : Uuid) (p : SubmitJobRequest) :
    (createJob userId p).Keeps Fits fun _ => True := by
  refine ⟨trivial, fun id _ => ⟨trivial, fun t _ => ⟨?_, fun _ _ => trivial⟩⟩⟩
  obtain ⟨hgpus, hgpus'⟩ := p.gpuCount_range
  obtain ⟨hmax, hmax'⟩ := p.maxDurationSeconds_range
  rw [maxJobDurationSeconds] at hmax'
  have hcount : fitsInteger p.gpuCount = true := fitsInteger_iff.2 ⟨by omega, by omega⟩
  have hduration : fitsInteger p.maxDurationSeconds = true :=
    fitsInteger_iff.2 ⟨by omega, by omega⟩
  exact fits_job.2 ⟨⟨hcount, hduration⟩, rfl⟩

theorem keeps_submitJob (caller : Caller) (p : SubmitJobRequest) :
    (submitJob app caller p).Keeps Fits fun _ => True := by
  unfold submitJob
  refine keeps_bind (keeps_of_reads (reads_currentUser _) fun actor => ?_)
  split
  · trivial
  · split
    · trivial
    · refine keeps_bind ((keeps_createJob _ _).mono fun job _ => ?_)
      refine keeps_bind ((keeps_createAudit (fun _ => rfl) ..).mono fun _ _ => ?_)
      refine keeps_bind (keeps_commit.mono fun _ _ => ?_)
      refine keeps_of_reads (Prog.emits_bind (reads_refreshJob _) fun job => ?_) fun _ => trivial
      trivial

/-- **A bill leaves the balance in range**: it is never negative and never raises it. -/
theorem fits_billed {u : User} (hu : Fits (Row.user u)) {hours : Int} (h : 1 ≤ hours) :
    Fits (Row.user (u.billed hours)) := by
  obtain ⟨-, hle⟩ := fitsInteger_iff.1 (fits_user.1 hu)
  have hmax : max 0 (u.creditsGpuHours - hours) ≤ 2147483647 := by omega
  have hmin : 0 ≤ max 0 (u.creditsGpuHours - hours) := le_max_left ..
  exact fits_user.2 (fitsInteger_iff.2 ⟨by show _ ≤ max _ _; omega, hmax⟩)

theorem fits_terminated {j : Job} (hj : Fits (Row.job j)) (p : CompleteJobRequest)
    (status : JobStatus) (now : Time) :
    Fits (Row.job (j.terminated status (some p.exitCode) p.errorMessage now)) := by
  obtain ⟨hnums, -⟩ := fits_job.1 hj
  obtain ⟨hge, hle⟩ := p.exitCode_range
  have hexit : fitsInteger p.exitCode = true := fitsInteger_iff.2 ⟨by omega, by omega⟩
  exact fits_job.2 ⟨hnums, hexit⟩

theorem keeps_completeJob (bearer : Option Str) (jobId : Uuid) (p : CompleteJobRequest) :
    (completeJob app bearer jobId p).Keeps Fits fun _ => True := by
  refine keeps_bind (keeps_of_reads (reads_currentNode _) fun node => keeps_bind ?_)
  unfold completeJobFor
  refine keeps_bind ((keeps_selectJob _).mono fun found hfound => ?_)
  cases found with
  | none => trivial
  | some job =>
    have hjob := hfound job rfl
    dsimp only
    split
    · trivial
    refine keeps_bind (keeps_of_reads ?_ fun _ => ?_)
    · unfold assertTransition
      split <;> trivial
    refine keeps_exec_bind trivial fun completedAt _ => ?_
    refine keeps_bind ((keeps_selectUser _).mono fun user huser => ?_)
    refine keeps_exec_bind trivial fun now _ => ?_
    refine keeps_bind ((keeps_flush hjob (fits_terminated hjob ..)).mono fun _ _ => ?_)
    refine keeps_bind (Prog.Keeps.mono (Q := fun _ => True) ?_ fun _ _ => ?_)
    · cases user with
      | none => trivial
      | some u =>
        exact keeps_flush (huser u rfl) (fits_billed (huser u rfl) (one_le_billGpuHours ..))
    refine keeps_bind ((keeps_createAudit (fun _ => rfl) ..).mono fun _ _ => ?_)
    refine keeps_bind (keeps_commit.mono fun _ _ => ?_)
    exact keeps_of_reads (reads_refreshJob _) fun _ => trivial

/-- The rows of a batch fit where its numbers do. -/
theorem keeps_logRows {jobId : Uuid} {t : Time} {entries : List JobLogEntryIn}
    (h : ∀ e ∈ entries, e.sequence ≤ 2147483647) :
    (logRows jobId t entries).Keeps Fits fun rows => ∀ r ∈ rows, Fits r := by
  induction entries with
  | nil => exact fun r hr => absurd hr (by simp)
  | cons e es ih =>
    obtain ⟨he, hes⟩ := List.forall_mem_cons.1 h
    refine keeps_exec_bind trivial fun id _ => keeps_bind ((ih hes).mono fun rows hrows => ?_)
    have hge := e.sequence_nonneg
    have hseq : fitsInteger e.sequence = true := fitsInteger_iff.2 ⟨by omega, he⟩
    exact List.forall_mem_cons.2 ⟨hseq, hrows⟩

theorem keeps_pushLogs (bearer : Option Str) (jobId : Uuid) {entries : List JobLogEntryIn}
    (h : ∀ e ∈ entries, e.sequence ≤ 2147483647) :
    (pushLogs app bearer jobId entries).Keeps Fits fun _ => True := by
  refine keeps_bind (keeps_of_reads (reads_currentNode _) fun node => ?_)
  split
  · trivial
  refine keeps_bind (keeps_of_reads (reads_selectJob _) fun found => ?_)
  cases found with
  | none => trivial
  | some job =>
    dsimp only
    split
    · trivial
    refine keeps_bind (Prog.Keeps.mono (Q := fun _ => True) ?_ fun _ _ => ?_)
    · unfold appendLogs
      split
      · trivial
      · refine keeps_exec_bind trivial fun t _ => ?_
        exact keeps_bind ((keeps_logRows h).mono fun rows hrows => ⟨hrows, fun _ _ => trivial⟩)
    · exact keeps_bind (keeps_commit.mono fun _ _ => trivial)

theorem keeps_registerNode (client : Client) {p : RegisterNodeRequest}
    (h : p.gpuMemoryGb ≤ 2147483647 ∧ p.gpuCount ≤ 2147483647) :
    (registerNode app client p).Keeps Fits fun _ => True := by
  unfold registerNode
  refine keeps_bind (keeps_of_reads ?_ fun found => ?_)
  · refine Prog.emits_bind (Prog.emits_exec rfl) fun r => ?_
    split <;> trivial
  refine keeps_bind (keeps_of_reads ?_ fun claim => ?_)
  · unfold checkClaimToken
    split
    · trivial
    · refine Prog.emits_bind (reads_orRaise _) fun valid => ?_
      split
      · split
        · trivial
        · refine Prog.emits_bind (Prog.emits_exec rfl) fun now => ?_
          split <;> trivial
      · trivial
  refine keeps_bind (keeps_of_reads ?_ fun generated => ?_)
  · refine Prog.emits_bind (Prog.emits_exec rfl) fun bytes => ?_
    refine Prog.emits_bind (Prog.emits_exec rfl) fun salt => ?_
    exact Prog.emits_bind (reads_orRaise _) fun _ => trivial
  refine keeps_bind (keeps_of_reads ?_ fun name => ?_)
  · unfold nodeName
    split
    · trivial
    · exact Prog.emits_bind (Prog.emits_exec rfl) fun _ => trivial
  refine keeps_exec_bind trivial fun lastSeenAt _ => ?_
  refine keeps_bind (Prog.Keeps.mono (Q := fun _ => True) ?_ fun node _ => ?_)
  · refine ⟨trivial, fun id _ => ⟨trivial, fun t _ => ⟨?_, fun _ _ => trivial⟩⟩⟩
    have hpos := p.gpuMemoryGb_pos
    have hpos' := p.gpuCount_pos
    have hmemory : fitsInteger p.gpuMemoryGb = true := fitsInteger_iff.2 ⟨by omega, h.1⟩
    have hcount : fitsInteger p.gpuCount = true := fitsInteger_iff.2 ⟨by omega, h.2⟩
    exact fits_node.2 ⟨hmemory, hcount⟩
  refine keeps_bind (Prog.Keeps.mono (Q := fun _ => True) ?_ fun _ _ => ?_)
  · exact keeps_exec_bind trivial fun now _ => keeps_flush rfl rfl
  refine keeps_bind ((keeps_createAudit (fun _ => rfl) ..).mono fun _ _ => ?_)
  refine keeps_bind (keeps_commit.mono fun _ _ => ?_)
  refine keeps_of_reads (Prog.emits_bind (reads_refreshNode _) fun node => ?_) fun _ => trivial
  trivial

theorem keeps_pushMetrics (bearer : Option Str) (nodeId : Uuid) {samples : List NodeMetricSample}
    (h : ∀ x ∈ samples, x.InRange) :
    (pushMetrics app bearer nodeId samples).Keeps Fits fun _ => True := by
  refine keeps_bind ((keeps_currentNode _).mono fun node hnode => ?_)
  split
  · trivial
  refine keeps_bind (Prog.Keeps.mono (Q := fun _ => True) ?_ fun _ _ => ?_)
  · unfold upsertSamples
    split
    · trivial
    · refine keeps_exec_bind trivial fun now _ => ⟨fun r hr => ?_, fun _ _ => trivial⟩
      obtain ⟨x, hx, rfl⟩ := List.mem_map.1 hr
      exact fits_metric.2 (h x hx)
  refine keeps_bind (Prog.Keeps.mono (Q := fun _ => True) ?_ fun _ _ => ?_)
  · exact keeps_exec_bind trivial fun now _ => keeps_flush hnode hnode
  exact keeps_bind (keeps_commit.mono fun _ _ => trivial)

theorem keeps_approveUser (caller : Caller) (userId : Uuid) {p : ApproveRequest}
    (h : p.creditsGpuHours ≤ 2147483647) :
    (approveUser app caller userId p).Keeps Fits fun _ => True := by
  have hcredits : fitsInteger p.creditsGpuHours = true := by
    have hge := p.credits_nonneg
    exact fitsInteger_iff.2 ⟨by omega, h⟩
  unfold approveUser
  refine keeps_bind ((keeps_requireAdmin _).mono fun admin hadmin => ?_)
  refine keeps_bind (Prog.Keeps.mono (Q := fun u => Fits (Row.user u)) ?_ fun user huser => ?_)
  · refine keeps_bind ((keeps_selectUser _).mono fun found hfound => ?_)
    cases found with
    | none => trivial
    | some user =>
      dsimp only
      split
      · exact hadmin
      · exact hfound user rfl
  refine keeps_bind ((keeps_flush huser (fits_user.2 hcredits)).mono fun _ _ => ?_)
  refine keeps_bind ((keeps_createAudit (fun _ => rfl) ..).mono fun _ _ => ?_)
  refine keeps_bind (keeps_commit.mono fun _ _ => ?_)
  refine keeps_of_reads (Prog.emits_bind ?_ fun user => ?_) fun _ => trivial
  · refine Prog.emits_bind (reads_refresh _) fun r => ?_
    split <;> trivial
  · trivial

/-- **A handler brings rows that fit**, where its body is in range. -/
theorem keeps_of_inRange {req : Request} {b : Body} (hreq : req.body = some b)
    (h : b.InRange) : (handle app req).Keeps Fits fun _ => True := by
  cases req with
  | submitJob caller p => exact keeps_submitJob caller p
  | completeJob bearer id p => exact keeps_completeJob bearer id p
  | pushLogs bearer id entries => cases hreq; exact keeps_pushLogs bearer id h
  | registerNode client p => cases hreq; exact keeps_registerNode client h
  | pushMetrics bearer id samples => cases hreq; exact keeps_pushMetrics bearer id h
  | approveUser caller id p => cases hreq; exact keeps_approveUser caller id h
  | _ => cases hreq

/-- Every number that a request with the body writes fits its column, in every state of every
deployment, and so no statement of it is refused for one. -/
def NumbersFit (b : Body) : Prop :=
  ∀ (app : App) (T : Terms Row Request ApiError Response) (db : Database) (clock : Time)
    (s : System), db.Every Fits → Reach (controlPlane app) T (idle db clock) s →
    ∀ (i : Nat) (th : Pending), s.threads[i]? = some th → th.req.body = some b →
      (∀ q k, th.prog = .stmt q k → q.Keeps Fits) ∧ ¬ Refused s i .outOfRange

theorem numbersFit_of_inRange {b : Body} (h : b.InRange) : NumbersFit b := by
  intro app T db clock s hdb hr i th hi hbody
  have hserve : ∀ req : Request, req.body = some b →
      ((controlPlane app).handle req).Keeps Fits fun _ => True :=
    fun req hreq => keeps_of_inRange hreq h
  have hthread := keeps_of_reach fitKept.rowInvariant (Q := fun _ _ => True) hserve
    (fun _ h' => fits_of_reach hdb h') rfl hr th (List.mem_of_getElem? hi) hbody
  refine ⟨fun q k hq => ?_, not_refused_of_keeps fitKept hserve rfl hdb hr hi hbody⟩
  have hprog := hthread.prog
  rw [hq] at hprog
  exact hprog.1

/-! ## Numbers out of range -/

/-- An administrator's account. -/
def sampleAdmin : User := { sampleUser with isAdmin := true }

/-- A claim token that is good for a second. -/
def sampleClaim (token : Str) : ClaimToken :=
  { id := 4, userId := 1, lookupPrefix := lookupPrefix token, tokenHash := token,
    expiresAt := second, createdAt := 0 }

/-- `sampleJob` on its node. -/
def assignedJob : Job := sampleJob.claimedBy sampleNode.id 0

/-- An administrator with a node, a job that runs there, and a claim token. -/
def numbersDb (token : Str) : Database where
  rows := [.user sampleAdmin, .node sampleNode, .job assignedJob, .claimToken (sampleClaim token)]
  nodup := by
    show [Key.user 1, .node 2, .job 3, .claimToken 4].Nodup
    decide

theorem every_fits_numbersDb (token : Str) : (numbersDb token).Every Fits := by
  intro r hr
  simp only [numbersDb, List.mem_cons, List.not_mem_nil, or_false] at hr
  rcases hr with rfl | rfl | rfl | rfl
  · exact fits_user.2 (by decide)
  · exact fits_node.2 (by decide)
  · exact fits_job.2 (by decide)
  · rfl

/-- What the statements find when that deployment is served a request. -/
def numbersScene (token : Str) : Scene := { db := numbersDb token, moments := still 0 fun _ => 0 }

/-- A request to that deployment which is refused when it runs alone. -/
theorem not_numbersFit_of_refusal {b : Body} {r : Request} (token : Str)
    (hreq : r.body = some b)
    (h : (handle plainApp r).refusal (numbersScene token) = some .outOfRange) :
    ¬ NumbersFit b := by
  intro hfit
  let th : Pending := ⟨r, handle plainApp r, {}, none⟩
  let s : System := { idle (numbersDb token) 0 with threads := [th] }
  have hspawn : step (controlPlane plainApp) (idle (numbersDb token) 0) (.spawn r) = some s := rfl
  have hothers : ∀ t ∈ s.others 0, t.ses.tx = {} := by simp [s, Sys.others]
  have hrefusal : th.prog.refusal (th.world s.db (still s.clock fun _ => 0)) =
      some .outOfRange := h
  obtain ⟨s', th', hr, hi, hth, href⟩ :=
    exists_refused (S := controlPlane plainApp) (i := 0) (s := s) rfl hothers rfl hrefusal
  have hreach := (Reach.refl.tail hspawn (T := anyTerms) trivial).trans hr
  refine (hfit plainApp anyTerms _ 0 s' (every_fits_numbersDb token) hreach 0 th' hi ?_).2 href
  rw [hth]
  exact hreq

theorem refusal_of_handler {α β : Type} {x : Handler β} {f : β → Handler α} {w : Scene}
    {e : SqlError}
    (h : x.Leads .database w (fun b w' => (f b).refusal w' = some e) fun _ => False) :
    (x >>= f).refusal w = some e := refusal_of_leads h

/-- The agent's requests come to what is done for its node. -/
theorem refusal_of_agent {f : Node → Handler Response} {token : Str} {e : SqlError}
    (h : ∀ w : Scene, w.ses.tx.view w.db = numbersDb token → (f sampleNode).refusal w = some e) :
    (currentNode plainApp (some sampleAgentToken) >>= f).refusal (numbersScene token) = some e :=
  refusal_of_handler (leads_sampleAgent rfl fun w hw => h w hw.view)

theorem exists_unfit_logRow {ls : List JobLog} {jobId : Uuid} {entries : List JobLogEntryIn}
    (hls : ls.map JobLog.entry = entries.map fun e => ((jobId, e.sequence), (e.stream, e.content)))
    (h : ¬ ∀ e ∈ entries, e.sequence ≤ 2147483647) : ∃ r ∈ logRowsOf ls, ¬ Fits r := by
  simp only [not_forall] at h
  obtain ⟨e, he, hout⟩ := h
  have hmem := List.mem_map_of_mem (f := fun e : JobLogEntryIn =>
    ((jobId, e.sequence), (e.stream, e.content))) he
  rw [← hls] at hmem
  obtain ⟨l, hl, hentry⟩ := List.mem_map.1 hmem
  have hseq : l.sequence = e.sequence := congrArg (fun x => x.1.2) hentry
  refine ⟨_, List.mem_map_of_mem hl, fun hfits => hout ?_⟩
  rw [← hseq]
  exact (fitsInteger_iff.1 hfits).2

theorem not_numbersFit_logs {entries : List JobLogEntryIn}
    (h : ¬ ∀ e ∈ entries, e.sequence ≤ 2147483647) : ¬ NumbersFit (.logs entries) := by
  refine not_numbersFit_of_refusal (r := .pushLogs (some sampleAgentToken) 3 entries) [] rfl
    (refusal_of_agent fun w hview => ?_)
  have hnonempty : ¬ entries.isEmpty = true := by
    cases entries with
    | nil => exact absurd (by simp) h
    | cons e es => exact Bool.false_ne_true
  rw [if_neg hnonempty]
  have hjob : (w.ses.tx.view w.db).job 3 = some assignedJob := by
    rw [hview]
    rfl
  refine refusal_of_handler (leads_getJobById ?_)
  rw [hjob]
  show Prog.refusal (if _ then _ else _) _ = _
  rw [if_neg (by decide)]
  refine refusal_bind_of_some ?_
  unfold appendLogs
  rw [if_neg hnonempty]
  refine refusal_of_handler (leads_txTime (leads_ret ?_))
  refine refusal_of_handler (leads_logRows fun ls w' _ _ hls => ?_)
  exact refusal_insertNew (exists_unfit_logRow hls h) _

theorem not_numbersFit_metrics {samples : List NodeMetricSample}
    (h : ¬ ∀ x ∈ samples, x.InRange) : ¬ NumbersFit (.metrics samples) := by
  refine not_numbersFit_of_refusal (r := .pushMetrics (some sampleAgentToken) 2 samples) [] rfl
    (refusal_of_agent fun w hview => ?_)
  rw [if_neg (by decide)]
  refine refusal_bind_of_some ?_
  have hnonempty : ¬ samples.isEmpty = true := by
    cases samples with
    | nil => exact absurd (by simp) h
    | cons x xs => exact Bool.false_ne_true
  unfold upsertSamples
  rw [if_neg hnonempty]
  refine refusal_of_handler (leads_now (leads_ret ?_))
  refine refusal_upsert ?_ _
  simp only [not_forall] at h
  obtain ⟨x, hx, hout⟩ := h
  exact ⟨_, List.mem_map_of_mem hx, fun hfits => hout (fits_metric.1 hfits)⟩

theorem not_numbersFit_approve {p : ApproveRequest} (h : ¬ p.creditsGpuHours ≤ 2147483647) :
    ¬ NumbersFit (.approve p) := by
  refine not_numbersFit_of_refusal (r := .approveUser sampleCaller 1 p) [] rfl ?_
  show (approveUser plainApp sampleCaller 1 p).refusal _ = _
  unfold approveUser
  have huser : (numbersDb []).user 1 = some sampleAdmin := rfl
  refine refusal_of_handler
    (leads_bind (leads_sampleCaller huser fun w hw => ?_))
  rw [if_pos (by decide)]
  refine leads_ret (refusal_of_handler
    (leads_bind (leads_getUserById ?_)))
  have hview : w.ses.tx.view w.db = numbersDb [] := hw.view
  rw [hview, huser]
  show Prog.Leads _ (if _ then _ else _) _ _ _
  rw [if_pos (by decide)]
  refine leads_ret (refusal_bind_of_some ?_)
  have hunfit : ¬ Fits (Row.user { sampleAdmin with
      status := .active, canHost := p.canHost, creditsGpuHours := p.creditsGpuHours }) :=
    fun hfits => h (fitsInteger_iff.1 (fits_user.1 hfits)).2
  have hne : Row.user { sampleAdmin with
      status := .active, canHost := p.canHost, creditsGpuHours := p.creditsGpuHours } ≠
      .user sampleAdmin := by
    intro he
    rw [he] at hunfit
    exact hunfit (every_fits_numbersDb [] _ (by simp [numbersDb]))
  unfold flush
  rw [if_neg hne]
  refine refusal_bind_of_some (refusal_update (Eq.trans (b := some (.user sampleAdmin)) ?_ rfl)
    hunfit _)
  rw [World.view_reads, hview]
  rfl

theorem claimOpen_numbersDb (p : RegisterNodeRequest) :
    ClaimOpen plainApp (numbersDb p.claimToken) p 0 (sampleClaim p.claimToken) where
  stored := by simp [numbersDb]
  lookup := rfl
  check := by simp [plainApp, sampleClaim]
  unused := rfl
  unexpired := by show 0 < second; decide

theorem not_numbersFit_registerNode {p : RegisterNodeRequest}
    (h : ¬ (p.gpuMemoryGb ≤ 2147483647 ∧ p.gpuCount ≤ 2147483647)) :
    ¬ NumbersFit (.registerNode p) := by
  refine not_numbersFit_of_refusal (r := .registerNode {} p) p.claimToken rfl ?_
  show (registerNode plainApp {} p).refusal _ = _
  unfold registerNode
  have hclaim : matching (numbersDb p.claimToken)
      (.claimTokenByPrefix (lookupPrefix p.claimToken)) =
      [.claimToken (sampleClaim p.claimToken)] := by
    simp [matching, numbersDb, Cond.holds, sampleClaim]
  refine refusal_of_handler (leads_bind (leads_select_of
    (o := some (.claimToken (sampleClaim p.claimToken))) ?_ (leads_ret ?_)))
  · show pickRow _ (matching (numbersDb p.claimToken) _) = _
    rw [hclaim]
    rfl
  refine refusal_of_handler (leads_checkClaimToken (claimOpen_numbersDb p) fun w₁ _ _ => ?_)
  refine refusal_of_handler (leads_drawToken (hashes_plainApp _ (by simp) _ _)
    fun hash w₂ _ _ _ => ?_)
  refine refusal_of_handler (leads_nodeName fun name w₃ _ _ _ => ?_)
  refine refusal_of_handler (leads_now (leads_ret (refusal_bind_of_some ?_)))
  unfold createNode
  refine refusal_of_handler (leads_random (leads_ret ?_))
  refine refusal_of_handler (leads_txTime (leads_ret (refusal_bind_of_some ?_)))
  refine refusal_insert (fun hfits => h ?_) _
  obtain ⟨hmemory, hcount⟩ := fits_node.1 hfits
  exact ⟨(fitsInteger_iff.1 hmemory).2, (fitsInteger_iff.1 hcount).2⟩

/-- **Every number of a request body fits its column exactly when the numbers fit that the
schemas leave open at the top**: the sequence of a log entry, the memory and the number of the
GPUs of a node, the amounts of memory of a sample and the credits of an approval. -/
theorem numbers_fit_iff (b : Body) : NumbersFit b ↔ b.InRange := by
  refine ⟨fun hfit => ?_, numbersFit_of_inRange⟩
  by_contra h
  cases b with
  | submitJob p => exact h trivial
  | completeJob p => exact h trivial
  | logs entries => exact not_numbersFit_logs h hfit
  | registerNode p => exact not_numbersFit_registerNode h hfit
  | metrics samples => exact not_numbersFit_metrics h hfit
  | approve p => exact not_numbersFit_approve h hfit

/-- A log entry whose number is one too large. -/
def oversizedEntry : JobLogEntryIn where
  stream := .stdout
  content := ['x']
  sequence := 2147483648
  content_length := by decide
  sequence_nonneg := by decide

/-- A batch is refused for the number of its last entry. -/
theorem oversized_entry_does_not_fit : ¬ NumbersFit (.logs [lineOf 'a' 0, oversizedEntry]) := by
  refine not_numbersFit_logs fun h => ?_
  exact absurd (h oversizedEntry (by simp)) (by decide)

end GpuNetwork
