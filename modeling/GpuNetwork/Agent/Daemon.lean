import GpuNetwork.ControlPlane.Api

/-!
# The daemon of a node

`Daemon` of `internal/agent/daemon`: the loop of `Run`, which heartbeats and claims one call
after the other, and the goroutines of `runJob` it starts.  Calls, contexts and the schedule
are left open; what the control plane answers is given by `GpuNetwork.Agent.Fleet`.

* `JobRun`, `Daemon` — a goroutine of `runJob`, and the daemon with what it has done so far.
* `completion` — what `runJob` reports.
* `Daemon.act` — what the daemon does by itself, one step at a time.
* `Daemon.Grows` — what no step of a daemon takes back.
* `JobRun.Goes`, `Daemon.goes_act` — what a step makes of a goroutine.
-/

namespace GpuNetwork.Agent

/-- `JobAssignment`. -/
structure JobAssignment where
  jobId : Uuid
  dockerImage : Str
  command : List Str
  maxDurationSeconds : Int
  deriving DecidableEq

/-- `context.Canceled` and `context.DeadlineExceeded`. -/
inductive CtxErr where
  | canceled
  | deadlineExceeded
  deriving DecidableEq

/-- The body of `complete`. -/
structure Report where
  exitCode : Int
  errorMessage : Option Str
  deriving DecidableEq

/-! ## The runner -/

/-- How `DockerRunner.Run` ends.  A `text` is that of an error of `os/exec`. -/
inductive DockerEnd where
  /-- A pipe of `docker pull`. -/
  | pullPipe (text : Str)
  | pullStart (text : Str)
  | pullWait (text : Str)
  /-- A pipe of `docker run`. -/
  | runPipe (text : Str)
  | runStart (text : Str)
  | exited (code : Int)
  | runWait (text : Str)
  deriving DecidableEq

namespace DockerEnd

/-- The exit code and the error that `DockerRunner.Run` returns. -/
def result : DockerEnd → Int × Option Str
  | .pullPipe text => (-1, some text)
  | .pullStart text => (-1, some ("docker pull start: ".toList ++ text))
  | .pullWait text => (-1, some ("docker pull failed: ".toList ++ text))
  | .runPipe text => (-1, some text)
  | .runStart text => (-1, some ("docker run start: ".toList ++ text))
  | .exited code => (code, none)
  | .runWait text => (-1, some text)

/-- The text that is passed on as it is. -/
def bare : DockerEnd → Option Str
  | .pullPipe text => some text
  | .runPipe text => some text
  | .runWait text => some text
  | _ => none

end DockerEnd

/-- The message of a job whose context was cancelled. -/
def cancelledMessage : Str := "cancelled by user".toList

/-- What `runJob` reports of the end of `runner.Run`, given the error of its context. -/
def completion (result : Int × Option Str) (ctxErr : Option CtxErr) : Report :=
  if ctxErr = some .canceled then ⟨-1, some cancelledMessage⟩
  else if result.2.isSome ∧ result.1 = 0 then ⟨1, result.2⟩
  else ⟨result.1, result.2⟩

/-- The report of a job that is said to be cancelled. -/
def cancelReport : Report := ⟨-1, some cancelledMessage⟩

theorem ne_cancelledMessage {p : Str} (text : Str) (hp : p.head? = some 'd') :
    p ++ text ≠ cancelledMessage := by
  intro h
  have hc : cancelledMessage.head? = some 'c' := by decide +kernel
  rw [← h, List.head?_append, hp, Option.some_or] at hc
  exact absurd hc (by decide)

/-- **Only a cancelled context is reported as a cancel**, as long as no error of `os/exec`
reads like one. -/
theorem canceled_of_cancelReport {e : DockerEnd} {ctxErr : Option CtxErr}
    (hbare : e.bare ≠ some cancelledMessage)
    (h : completion e.result ctxErr = cancelReport) : ctxErr = some .canceled := by
  by_contra hctx
  have hmessage : e.result.2 = some cancelledMessage := by
    unfold completion at h
    rw [if_neg hctx] at h
    split at h
    · exact congrArg Report.errorMessage h
    · exact congrArg Report.errorMessage h
  have hlit : ∀ {p text : Str}, p.head? = some 'd' → some (p ++ text) ≠ some cancelledMessage :=
    fun hp h => ne_cancelledMessage _ hp (Option.some.inj h)
  cases e with
  | pullStart text => exact absurd hmessage (hlit (by decide +kernel))
  | pullWait text => exact absurd hmessage (hlit (by decide +kernel))
  | runStart text => exact absurd hmessage (hlit (by decide +kernel))
  | exited code => cases hmessage
  | _ => exact absurd hmessage hbare

/-! ## The state -/

/-- Where `runJob` is.  A call is `none` as long as it has not reached the control plane, and
then the request it is there. -/
inductive Stage where
  /-- After `go d.runJob`. -/
  | launched
  /-- In `runner.Run`. -/
  | running
  /-- In `complete`. -/
  | completing (report : Report) (call : Option Nat)
  /-- `complete` has returned, without an error or with one; the deferred functions are to
  come. -/
  | completed (accepted : Bool)
  | returned (accepted : Bool)
  /-- The process has ended first. -/
  | killed
  deriving DecidableEq

/-- A goroutine of `runJob`. -/
structure JobRun where
  job : JobAssignment
  /-- The claim that was answered with the job. -/
  claim : Nat
  stage : Stage := .launched
  /-- `runCtx.Err()`. -/
  ctxErr : Option CtxErr := none
  deriving DecidableEq

/-- Where the loop of `Run` is. -/
inductive Turn where
  /-- In its `select`. -/
  | idle
  | heartbeat (call : Option Nat)
  | claim (call : Option Nat)
  /-- The process has ended. -/
  | stopped
  deriving DecidableEq

/-- `Daemon`, with its goroutines and what it has done so far. -/
structure Daemon where
  turn : Turn := .stopped
  /-- The context of `Run` is cancelled. -/
  signalled : Bool := false
  runningId : Option Uuid := none
  /-- The goroutine whose context `cancelRun` cancels. -/
  cancelRun : Option Nat := none
  runs : List JobRun := []
  /-- The values of `cancel_job_id` it has received. -/
  heard : List Uuid := []
  /-- The jobs whose context was cancelled while they were running. -/
  aborted : List Uuid := []
  /-- The jobs it has reported. -/
  reports : List (Uuid × Report) := []
  /-- The claims that reached the control plane and ended in an error here. -/
  lost : List Nat := []
  deriving DecidableEq

namespace JobRun

/-- The job is yet to be run, or runs. -/
def isOpen (r : JobRun) : Bool :=
  match r.stage with
  | .launched => true
  | .running => true
  | _ => false

/-- The job runs, and its context has not ended. -/
def isLive (r : JobRun) : Bool := decide (r.stage = .running ∧ r.ctxErr = none)

/-- The context is cancelled.  Once the job has run nobody looks at it any more. -/
def canceled (r : JobRun) : JobRun := if r.isLive then { r with ctxErr := some .canceled } else r

/-- The process ends. -/
def ended (r : JobRun) : JobRun :=
  match r.stage with
  | .completed accepted => { r with stage := .returned accepted }
  | .returned _ => r
  | _ => { r with stage := .killed }

end JobRun

/-! ## Steps -/

/-- What a daemon does by itself. -/
inductive DaemonAct where
  /-- `tickOnce` begins. -/
  | tick
  /-- The call of the loop ends in an error: it is lost, its answer is lost or cannot be
  decoded, it takes too long, or its context is cancelled. -/
  | callFails
  /-- The goroutine is scheduled and reaches `runner.Run`. -/
  | starts (k : Nat)
  | deadline (k : Nat)
  /-- `runner.Run` returns, and `complete` begins. -/
  | runnerEnds (k : Nat) (e : DockerEnd)
  /-- The call of `complete` ends in an error. -/
  | completeFails (k : Nat)
  /-- The deferred functions of `runJob`. -/
  | returns (k : Nat)
  /-- `SIGINT` or `SIGTERM`. -/
  | signal
  /-- The process ends, since `Run` has returned or for any other reason. -/
  | exits
  /-- `runStart` in a new process. -/
  | boots
  deriving DecidableEq

namespace Daemon

/-- `cancel()` of the goroutine. -/
def cancel (d : Daemon) (k : Nat) : Daemon :=
  match d.runs[k]? with
  | none => d
  | some r =>
    { d with
      runs := d.runs.set k r.canceled
      aborted := if r.isLive then d.aborted ++ [r.job.jobId] else d.aborted }

/-- `tickOnce` from the answer to its heartbeat on.  With a cancelled context a claim fails
before it is sent. -/
def afterHeartbeat (d : Daemon) (cancelJobId : Option Uuid) : Daemon :=
  let d := { d with heard := d.heard ++ cancelJobId.toList }
  if d.runningId.isSome then
    match cancelJobId, d.cancelRun with
    | some _, some k => { d.cancel k with turn := .idle }
    | _, _ => { d with turn := .idle }
  else { d with turn := if d.signalled then .idle else .claim none }

/-- `go d.runJob(ctx, job)`. -/
def launch (d : Daemon) (job : JobAssignment) (claim : Nat) : Daemon :=
  { d with turn := .idle, runs := d.runs ++ [{ job, claim }] }

/-- The claim of the loop that has reached the control plane. -/
def pendingClaim (d : Daemon) : Option Nat :=
  match d.turn with
  | .claim call => call
  | _ => none

/-- One step; `none` when it cannot be taken.  In a cancelled context a tick fails before its
heartbeat is sent. -/
def act (d : Daemon) : DaemonAct → Option Daemon
  | .tick =>
    if d.turn = .idle ∧ d.signalled = false then some { d with turn := .heartbeat none } else none
  | .callFails =>
    match d.turn with
    | .heartbeat _ => some { d with turn := .idle }
    | .claim call => some { d with turn := .idle, lost := d.lost ++ call.toList }
    | _ => none
  | .starts k =>
    match d.runs[k]? with
    | some r =>
      if r.stage = .launched then
        let started := { r with stage := .running, ctxErr := none }
        some
          { d with
            runningId := some r.job.jobId
            cancelRun := some k
            -- a context made from a cancelled one is cancelled
            runs := d.runs.set k (if d.signalled then started.canceled else started)
            aborted := if d.signalled then d.aborted ++ [r.job.jobId] else d.aborted }
      else none
    | none => none
  | .deadline k =>
    match d.runs[k]? with
    | some r =>
      if r.isLive then
        some { d with runs := d.runs.set k { r with ctxErr := some .deadlineExceeded } }
      else none
    | none => none
  | .runnerEnds k e =>
    match d.runs[k]? with
    | some r =>
      if r.stage = .running then
        let report := completion e.result r.ctxErr
        some
          { d with
            runs := d.runs.set k { r with stage := .completing report none }
            reports := d.reports ++ [(r.job.jobId, report)] }
      else none
    | none => none
  | .completeFails k =>
    match d.runs[k]? with
    | some r =>
      match r.stage with
      | .completing _ _ => some { d with runs := d.runs.set k { r with stage := .completed false } }
      | _ => none
    | none => none
  | .returns k =>
    match d.runs[k]? with
    | some r =>
      match r.stage with
      | .completed accepted =>
        some
          { d with
            runningId := none
            cancelRun := none
            runs := d.runs.set k { r with stage := .returned accepted } }
      | _ => none
    | none => none
  | .signal =>
    some
      { d with
        signalled := true
        runs := d.runs.map JobRun.canceled
        aborted := d.aborted ++ (d.runs.filter JobRun.isLive).map fun r => r.job.jobId }
  | .exits =>
    some
      { d with
        turn := .stopped
        runs := d.runs.map JobRun.ended
        lost := d.lost ++ d.pendingClaim.toList }
  | .boots =>
    if d.turn = .stopped then
      some { d with turn := .idle, signalled := false, runningId := none, cancelRun := none }
    else none

end Daemon

/-! ## What a step keeps -/

/-- What becomes of a goroutine. -/
structure JobRun.Onward (r r' : JobRun) : Prop where
  job : r'.job = r.job
  claim : r'.claim = r.claim
  isOpen : r'.isOpen = true → r.isOpen = true

/-- Of two daemons the second is what the first has become without a new goroutine. -/
structure Daemon.Grows (d d' : Daemon) : Prop where
  runs : ∀ k : Nat, Option.Rel JobRun.Onward d.runs[k]? d'.runs[k]?
  lost : ∀ i ∈ d.lost, i ∈ d'.lost
  heard : ∀ id ∈ d.heard, id ∈ d'.heard
  /-- A claim that is pending was so before, and does not vanish. -/
  pending : ∀ i, d'.pendingClaim = some i → d.pendingClaim = some i
  given : ∀ i, d.pendingClaim = some i → d'.pendingClaim = some i ∨ i ∈ d'.lost

namespace JobRun

variable {r r' : JobRun}

theorem Onward.refl : r.Onward r := ⟨rfl, rfl, id⟩

theorem Onward.trans {r'' : JobRun} (h : r.Onward r') (h' : r'.Onward r'') : r.Onward r'' :=
  ⟨h'.job.trans h.job, h'.claim.trans h.claim, fun ho => h.isOpen (h'.isOpen ho)⟩

theorem onward_closed (r : JobRun) {stage : Stage}
    (h : ({ r with stage } : JobRun).isOpen = false) : r.Onward { r with stage } :=
  ⟨rfl, rfl, fun ho => by rw [h] at ho; cases ho⟩

theorem onward_canceled : r.Onward r.canceled := by
  unfold canceled
  split
  · exact ⟨rfl, rfl, id⟩
  · exact Onward.refl

theorem onward_ended : r.Onward r.ended := by
  unfold ended
  split
  · exact ⟨rfl, rfl, fun h => by cases h⟩
  · exact Onward.refl
  · exact ⟨rfl, rfl, fun h => by cases h⟩

theorem isOpen_of_live (h : r.isLive = true) : r.isOpen = true := by
  obtain ⟨hstage, -⟩ := of_decide_eq_true h
  simp [isOpen, hstage]

end JobRun

namespace Daemon

variable {d d' : Daemon}

theorem onward_refl (rs : List JobRun) (k : Nat) : Option.Rel JobRun.Onward rs[k]? rs[k]? := by
  cases rs[k]? with
  | none => exact Option.Rel.none
  | some r => exact Option.Rel.some JobRun.Onward.refl

theorem onward_set {rs : List JobRun} {k : Nat} {r r' : JobRun} (hk : rs[k]? = some r)
    (h : r.Onward r') (j : Nat) : Option.Rel JobRun.Onward rs[j]? (rs.set k r')[j]? := by
  by_cases hjk : k = j
  · subst hjk
    rw [hk, List.getElem?_set_self (List.getElem?_eq_some_iff.1 hk).1]
    exact Option.Rel.some h
  · rw [List.getElem?_set_ne hjk]
    exact onward_refl rs j

theorem onward_map {f : JobRun → JobRun} (hf : ∀ r : JobRun, r.Onward (f r)) (rs : List JobRun)
    (k : Nat) : Option.Rel JobRun.Onward rs[k]? (rs.map f)[k]? := by
  rw [List.getElem?_map]
  cases rs[k]? with
  | none => exact Option.Rel.none
  | some r => exact Option.Rel.some (hf r)

theorem Grows.refl : d.Grows d := ⟨onward_refl _, fun _ => id, fun _ => id, fun _ => id,
  fun _ => Or.inl⟩

theorem Grows.trans {d'' : Daemon} (h : d.Grows d') (h' : d'.Grows d'') : d.Grows d'' := by
  refine ⟨fun k => ?_, fun i hi => h'.lost i (h.lost i hi),
    fun id hid => h'.heard id (h.heard id hid),
    fun i hi => h.pending i (h'.pending i hi), fun i hi => ?_⟩
  · have hk := h.runs k
    have hk' := h'.runs k
    revert hk hk'
    cases d.runs[k]? <;> cases d'.runs[k]? <;> cases d''.runs[k]? <;> intro hk hk' <;>
      cases hk <;> cases hk'
    · exact Option.Rel.none
    · rename_i hr hr'
      exact Option.Rel.some (hr.trans hr')
  · rcases h.given i hi with hi | hi
    · exact h'.given i hi
    · exact Or.inr (h'.lost i hi)

/-- A change of one goroutine and of nothing that is told apart here. -/
theorem grows_of_set {k : Nat} {r r' : JobRun} (hk : d.runs[k]? = some r) (hr : r.Onward r')
    (hruns : d'.runs = d.runs.set k r') (hlost : d'.lost = d.lost) (hheard : d'.heard = d.heard)
    (hturn : d'.turn = d.turn) : d.Grows d' := by
  have hpending : d'.pendingClaim = d.pendingClaim := by rw [pendingClaim, pendingClaim, hturn]
  refine ⟨fun j => ?_, fun i hi => hlost ▸ hi, fun id hid => hheard ▸ hid,
    fun i hi => hpending ▸ hi, fun i hi => Or.inl (hpending ▸ hi)⟩
  rw [hruns]
  exact onward_set hk hr j

theorem grows_cancel (k : Nat) : d.Grows (d.cancel k) := by
  unfold cancel
  cases hk : d.runs[k]? with
  | none => exact Grows.refl
  | some r => exact grows_of_set hk JobRun.onward_canceled rfl rfl rfl rfl

/-- Where the loop turns from a call that is no claim. -/
theorem Grows.turns (h : d.Grows d') {turn : Turn} (hno : d.pendingClaim = none)
    (hturn : ∀ i, turn ≠ .claim (some i)) : d.Grows { d' with turn } := by
  refine ⟨h.runs, h.lost, h.heard, fun i hi => ?_, fun i hi => ?_⟩
  · simp only [pendingClaim] at hi
    split at hi
    · subst hi; exact absurd rfl (hturn i)
    · cases hi
  · rw [hno] at hi
    cases hi

theorem grows_afterHeartbeat {call : Option Nat} (hturn : d.turn = .heartbeat call)
    (c : Option Uuid) : d.Grows (d.afterHeartbeat c) := by
  have hno : d.pendingClaim = none := by rw [pendingClaim, hturn]
  have hheard : d.Grows { d with heard := d.heard ++ c.toList } :=
    ⟨onward_refl _, fun _ => id, fun _ => List.mem_append_left _, fun _ => id, fun _ => Or.inl⟩
  unfold afterHeartbeat
  dsimp only
  split
  · split
    · exact (hheard.trans (grows_cancel _)).turns hno (by simp)
    · exact hheard.turns hno (by simp)
  · refine hheard.turns hno fun i => ?_
    split <;> simp

/-- **No step of a daemon takes back** what it has been given. -/
theorem grows_act {a : DaemonAct} (h : d.act a = some d') : d.Grows d' := by
  cases a with
  | tick =>
    simp only [act] at h
    split at h <;> cases h
    rename_i hidle
    exact Grows.refl.turns (by rw [pendingClaim, hidle.1]) (by simp)
  | callFails =>
    simp only [act] at h
    split at h <;> cases h
    · rename_i hturn
      exact Grows.refl.turns (by rw [pendingClaim, hturn]) (by simp)
    · rename_i call hturn
      refine ⟨onward_refl _, fun i hi => List.mem_append_left _ hi, fun _ => id,
        fun i hi => (nomatch hi), fun i hi => ?_⟩
      rw [pendingClaim, hturn] at hi
      exact Or.inr (List.mem_append_right _ (by simp [show call = some i from hi]))
  | starts k =>
    simp only [act] at h
    split at h
    · rename_i r hk
      split at h <;> cases h
      rename_i hstage
      have hstart : r.Onward { r with stage := .running, ctxErr := none } :=
        ⟨rfl, rfl, fun _ => by simp [JobRun.isOpen, hstage]⟩
      refine grows_of_set hk ?_ rfl rfl rfl rfl
      split
      · exact hstart.trans JobRun.onward_canceled
      · exact hstart
    · cases h
  | deadline k =>
    simp only [act] at h
    split at h
    · rename_i r hk
      split at h <;> cases h
      have hended : r.Onward { r with ctxErr := some .deadlineExceeded } := ⟨rfl, rfl, id⟩
      exact grows_of_set hk hended rfl rfl rfl rfl
    · cases h
  | runnerEnds k e =>
    simp only [act] at h
    split at h
    · rename_i r hk
      split at h <;> cases h
      exact grows_of_set hk (r.onward_closed rfl) rfl rfl rfl rfl
    · cases h
  | completeFails k =>
    simp only [act] at h
    split at h
    · rename_i r hk
      split at h <;> cases h
      exact grows_of_set hk (r.onward_closed rfl) rfl rfl rfl rfl
    · cases h
  | returns k =>
    simp only [act] at h
    split at h
    · rename_i r hk
      split at h <;> cases h
      exact grows_of_set hk (r.onward_closed rfl) rfl rfl rfl rfl
    · cases h
  | signal =>
    cases h
    exact ⟨onward_map (fun _ => JobRun.onward_canceled) _, fun _ => id, fun _ => id,
      fun _ => id, fun _ => Or.inl⟩
  | exits =>
    cases h
    refine ⟨onward_map (fun _ => JobRun.onward_ended) _, fun i hi => List.mem_append_left _ hi,
      fun _ => id, fun i hi => (nomatch hi), fun i hi => Or.inr (List.mem_append_right _ ?_)⟩
    simp [hi]
  | boots =>
    simp only [act] at h
    split at h <;> cases h
    rename_i hstopped
    have hkept : d.Grows { d with signalled := false, runningId := none, cancelRun := none } :=
      ⟨onward_refl _, fun _ => id, fun _ => id, fun _ => id, fun _ => Or.inl⟩
    exact hkept.turns (by rw [pendingClaim, hstopped]) (by simp)

end Daemon

/-! ## What becomes of a goroutine -/

namespace JobRun

/-- What a step of its daemon makes of a goroutine. -/
inductive Goes : JobRun → JobRun → Prop
  | stays {r : JobRun} : Goes r r
  | starts {r : JobRun} {ctxErr : Option CtxErr} : r.stage = .launched →
      Goes r { r with stage := .running, ctxErr }
  | ends {r : JobRun} {ctxErr : Option CtxErr} : r.stage = .running → Goes r { r with ctxErr }
  | reports {r : JobRun} {report : Report} : r.stage = .running →
      Goes r { r with stage := .completing report none }
  | fails {r : JobRun} {report : Report} {call : Option Nat} : r.stage = .completing report call →
      Goes r { r with stage := .completed false }
  | returns {r : JobRun} {accepted : Bool} : r.stage = .completed accepted →
      Goes r { r with stage := .returned accepted }
  | dies {r : JobRun} : (∀ accepted, r.stage ≠ .completed accepted ∧ r.stage ≠ .returned accepted) →
      Goes r { r with stage := .killed }

variable {r : JobRun}

theorem goes_canceled : r.Goes r.canceled := by
  unfold canceled
  split
  · rename_i hlive
    exact .ends (of_decide_eq_true hlive).1
  · exact .stays

theorem goes_ended : r.Goes r.ended := by
  unfold ended
  split
  · rename_i hstage
    exact .returns hstage
  · exact .stays
  · rename_i hcompleted hreturned
    exact .dies fun accepted => ⟨hcompleted accepted, hreturned accepted⟩

end JobRun

namespace Daemon

variable {d d' : Daemon}

/-- One goroutine goes on, and the others stay. -/
theorem goes_of_set {rs : List JobRun} {k : Nat} {r r' : JobRun} (hk : rs[k]? = some r)
    (h : r.Goes r') {j : Nat} {x' : JobRun} (hj : (rs.set k r')[j]? = some x') :
    ∃ x, rs[j]? = some x ∧ x.Goes x' := by
  rw [List.getElem?_set] at hj
  split at hj
  · rename_i hkj
    split at hj
    · cases hj
      exact ⟨r, hkj ▸ hk, h⟩
    · cases hj
  · exact ⟨x', hj, .stays⟩

theorem goes_of_map {f : JobRun → JobRun} (hf : ∀ r : JobRun, r.Goes (f r)) {rs : List JobRun}
    {j : Nat} {x' : JobRun} (hj : (rs.map f)[j]? = some x') : ∃ x, rs[j]? = some x ∧ x.Goes x' := by
  rw [List.getElem?_map] at hj
  obtain ⟨x, hx, rfl⟩ := Option.map_eq_some_iff.1 hj
  exact ⟨x, hx, hf x⟩

theorem goes_cancel {k j : Nat} {x' : JobRun} (hj : (d.cancel k).runs[j]? = some x') :
    ∃ x, d.runs[j]? = some x ∧ x.Goes x' := by
  unfold cancel at hj
  split at hj
  · exact ⟨x', hj, .stays⟩
  · rename_i r hk
    exact goes_of_set hk JobRun.goes_canceled hj

theorem goes_afterHeartbeat {c : Option Uuid} {j : Nat} {x' : JobRun}
    (hj : (d.afterHeartbeat c).runs[j]? = some x') : ∃ x, d.runs[j]? = some x ∧ x.Goes x' := by
  unfold afterHeartbeat at hj
  dsimp only at hj
  split at hj
  · split at hj
    · rename_i id k _
      have hcancelled := goes_cancel (d := { d with heard := d.heard ++ [id] }) (k := k) hj
      exact hcancelled
    · exact ⟨x', hj, .stays⟩
  · exact ⟨x', hj, .stays⟩

/-- **What a step of a daemon makes of its goroutines.** -/
theorem goes_act {a : DaemonAct} (h : d.act a = some d') {j : Nat} {x' : JobRun}
    (hj : d'.runs[j]? = some x') : ∃ x, d.runs[j]? = some x ∧ x.Goes x' := by
  cases a with
  | tick =>
    simp only [act] at h
    split at h <;> cases h
    exact ⟨x', hj, .stays⟩
  | callFails =>
    simp only [act] at h
    split at h <;> cases h
    · exact ⟨x', hj, .stays⟩
    · exact ⟨x', hj, .stays⟩
  | starts k =>
    simp only [act] at h
    split at h
    · rename_i r hk
      split at h <;> cases h
      rename_i hstage
      refine goes_of_set hk ?_ hj
      split
      · exact .starts hstage
      · exact .starts hstage
    · cases h
  | deadline k =>
    simp only [act] at h
    split at h
    · rename_i r hk
      split at h <;> cases h
      rename_i hlive
      exact goes_of_set hk (.ends (of_decide_eq_true hlive).1) hj
    · cases h
  | runnerEnds k e =>
    simp only [act] at h
    split at h
    · rename_i r hk
      split at h <;> cases h
      rename_i hstage
      exact goes_of_set hk (.reports hstage) hj
    · cases h
  | completeFails k =>
    simp only [act] at h
    split at h
    · rename_i r hk
      split at h <;> cases h
      rename_i hstage
      exact goes_of_set hk (.fails hstage) hj
    · cases h
  | returns k =>
    simp only [act] at h
    split at h
    · rename_i r hk
      split at h <;> cases h
      rename_i hstage
      exact goes_of_set hk (.returns hstage) hj
    · cases h
  | signal =>
    cases h
    exact goes_of_map (fun _ => JobRun.goes_canceled) hj
  | exits =>
    cases h
    exact goes_of_map (fun _ => JobRun.goes_ended) hj
  | boots =>
    simp only [act] at h
    split at h <;> cases h
    exact ⟨x', hj, .stays⟩

end Daemon

end GpuNetwork.Agent
