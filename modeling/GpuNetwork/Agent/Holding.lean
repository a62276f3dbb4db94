import GpuNetwork.Agent.Custody

/-!
# Who holds a job that runs

A daemon holds a job from the claim that takes it to the answer to its report.  Nothing is
asked for twice: a claim or a report that ends in an error, and a process that ends, leave the
job running in the store with nobody to report it.

* `Concluded`, `completions_chronicle` — a job that has been reported has ended.
* `Reported`, `reported_of_run` — how the reports of daemons and the store go together.
* `Holds`, `GaveUp` — a daemon holds a job, or has lost it.
* `running_jobs_are_held_or_given_up`.
-/

namespace GpuNetwork

open ReadCommitted ReadCommitted.Spec

variable {app : App} {rely : Rely} {refusals : Prop} {db : Database} {req : Request}
  {tx : Transaction}

/-! ## Reports and the store -/

/-- The job has ended. -/
def Concluded (db : Database) (id : Uuid) : Prop :=
  ∃ j, db.job id = some j ∧ j.status.isTerminal = true

theorem concluded_kept (h : (platform app rely refusals).Committing db req tx) {id : Uuid}
    (hc : Concluded db id) : Concluded (tx.view db) id := by
  obtain ⟨j, hj, hterm⟩ := hc
  exact terminal_stays h hj hterm

/-- The report of an agent ends its job, whatever has become of the job in the meantime. -/
theorem concluded_of_completeJob (h : (platform app rely refusals).Committing db req tx)
    {bearer : Option Str} {id : Uuid} {p : CompleteJobRequest}
    (hreq : req = .completeJob bearer id p) : Concluded (tx.view db) id := by
  obtain ⟨n, old, completedAt, now, owner, hours, a, hn, hread, hassign, hallowed, hhours, howner,
    hfound, hw, hlogs⟩ := shape_of_completeJob (hreq ▸ h.shape)
  have hid := id_of_read_job hread
  subst hid
  obtain ⟨j, hj⟩ := job_of_found h.toSince hfound
  refine ⟨_, by rw [job_view_update hw target_of_mem_bill, if_pos rfl, hj, Option.map_some], ?_⟩
  rw [status_merge_terminated (ne_of_allowed hallowed)]
  exact isTerminal_completionTarget _ _

/-- Once a report has been committed its job has ended. -/
theorem completions_chronicle (app : App) :
    (onward app).Chronicle (controlPlane app) anyTerms (fun _ => True)
      (fun req _ d => ∀ bearer id p, req = .completeJob bearer id p → Concluded d id) where
  kept := fun _ _ _ hs _ _ => kept_of_commits (P := onward app) trivial
    (fun _ _ _ hcom _ _ => onward_of_committing hcom) hs
  inv := fun _ _ _ _ _ _ _ _ _ => trivial
  new := fun _ _ _ _ _ _ _ hcom _ _ _ _ hreq => concluded_of_completeJob hcom hreq
  old := fun _ _ _ _ _ _ _ hcom _ _ _ hG bearer id p hreq =>
    concluded_kept hcom (hG bearer id p hreq)

/-- **A job has ended once its report is answered** without an error, and stays so. -/
theorem concluded_of_answer {db : Database} {clock : Time} {s : System}
    (h : Reach (controlPlane app) anyTerms (idle db clock) s) {i : Nat} {th : Pending}
    (hi : s.threads[i]? = some th) {bearer : Option Str} {id : Uuid} {p : CompleteJobRequest}
    (hreq : th.req = .completeJob bearer id p) {response : Response}
    (hret : th.prog = .ret response) : Concluded s.db id := by
  obtain ⟨hok, -, hpast⟩ :=
    history (platform_valid app _ _) (completions_chronicle app) rfl trivial h
  have hsafe := hok.safe i th hi
  rw [hret, hreq] at hsafe
  obtain ⟨tx, htx⟩ := hsafe
  exact hpast i th hi tx (by rw [htx]; exact List.mem_singleton_self _) bearer id p hreq

/-- A claim that is told that there is no job has taken none. -/
theorem past_of_noContent {s : System} (hok : (onward app).Ok s) {i : Nat} {th : Pending}
    (hi : s.threads[i]? = some th) {bearer : Option Str} (hreq : th.req = .claimJob bearer)
    (hret : th.prog = .ret .noContent) : th.ses.past = [] := by
  have hsafe := hok.safe i th hi
  rw [hret, hreq] at hsafe
  exact hsafe

/-- A claim that is answered with a job has taken no other. -/
theorem claims_of_answer_eq {s : System} (hok : (onward app).Ok s) {i : Nat} {th : Pending}
    (hi : s.threads[i]? = some th) {bearer : Option Str} (hreq : th.req = .claimJob bearer)
    {id : Uuid} {image : Str} {command : List Str} {limit : Int}
    (hret : th.prog = .ret (.assignment id image command limit)) {tx : Transaction}
    (htx : tx ∈ th.ses.past) {id' : Uuid} (hc : ClaimsJob th.req tx id') : id' = id := by
  have hsafe := hok.safe i th hi
  rw [hret, hreq] at hsafe
  obtain ⟨tx₀, hpast, j, nodeId, now, rest, hw, rfl⟩ := hsafe
  rw [hpast, List.mem_singleton] at htx
  subst htx
  obtain ⟨_, j', _, _, _, -, hw', rfl⟩ := hc
  rw [hw, List.cons.injEq, Write.update.injEq, Row.job.injEq] at hw'
  rw [hw'.1.1]

end GpuNetwork

namespace GpuNetwork.Agent

open ReadCommitted ReadCommitted.Spec Machine

/-! ## Reports and their answers -/

namespace JobRun

/-- The request by which the job is being reported. -/
def call (r : JobRun) : Option Nat :=
  match r.stage with
  | .completing _ call => call
  | _ => none

/-- The report has been answered without an error. -/
def accepted (r : JobRun) : Bool :=
  match r.stage with
  | .completed accepted => accepted
  | .returned accepted => accepted
  | _ => false

/-- The job is yet to be reported, or its report is under way. -/
def isHeld (r : JobRun) : Bool :=
  match r.stage with
  | .completing _ _ => true
  | _ => r.isOpen

/-- The report has ended in an error, or the process has ended before. -/
def isLost (r : JobRun) : Bool :=
  match r.stage with
  | .completed accepted => !accepted
  | .returned accepted => !accepted
  | .killed => true
  | _ => false

variable {r r' : JobRun}

theorem held_or_lost (h : r.accepted = false) : r.isHeld = true ∨ r.isLost = true := by
  unfold accepted at h
  unfold isHeld isLost isOpen
  cases hstage : r.stage <;> simp_all

/-- By itself a daemon neither posts a report nor gets its answer. -/
theorem Goes.job (h : r.Goes r') : r'.job = r.job := by
  cases h <;> rfl

theorem Goes.call (h : r.Goes r') {i : Nat} (hi : r'.call = some i) : r.call = some i := by
  cases h with
  | stays => exact hi
  | ends hstage => exact hi
  | _ => cases hi

theorem Goes.accepted (h : r.Goes r') (ha : r'.accepted = true) : r.accepted = true := by
  cases h with
  | stays => exact ha
  | ends hstage => exact ha
  | returns hstage =>
    rw [JobRun.accepted, hstage]
    exact ha
  | _ => cases ha

end JobRun

/-- How the reports of daemons and the store go together. -/
structure Reported (tokens : Uuid → Str) (s : Fleet) : Prop where
  call : ∀ (n : Uuid) (k : Nat) (r : JobRun) (i : Nat), (s.daemons n).runs[k]? = some r →
    r.call = some i → ∃ (th : Pending) (p : CompleteJobRequest),
      s.server.threads[i]? = some th ∧ th.req = .completeJob (some (tokens n)) r.job.jobId p
  accepted : ∀ (n : Uuid) (k : Nat) (r : JobRun), (s.daemons n).runs[k]? = some r →
    r.accepted = true → Concluded s.server.db r.job.jobId

variable {app : App} {tokens : Uuid → Str} {s s' : Fleet} {m : FleetAct}

/-- What a step makes of a goroutine: it goes on by itself, has just been launched, posts its
report or gets an answer to it. -/
inductive Comes (tokens : Uuid → Str) (s s' : Fleet) (n : Uuid) (k : Nat) (r' : JobRun) : Prop
  | goes {r : JobRun} : (s.daemons n).runs[k]? = some r → r.Goes r' → Comes tokens s s' n k r'
  | launched : r'.stage = .launched → Comes tokens s s' n k r'
  | posts {r : JobRun} {report : Report} {p : CompleteJobRequest} {th : Pending} :
      (s.daemons n).runs[k]? = some r → r.stage = .completing report none →
      r' = { r with stage := .completing report (some s.next) } →
      s'.server.threads[s.next]? = some th →
      th.req = .completeJob (some (tokens n)) r.job.jobId p → Comes tokens s s' n k r'
  | isAnswered {r : JobRun} {report : Report} {call : Option Nat} {accepted : Bool} :
      (s.daemons n).runs[k]? = some r → r.stage = .completing report call →
      r' = { r with stage := .completed accepted } →
      (accepted = true → ∃ (i : Nat) (th : Pending) (response : Response), call = some i ∧
        s.server.threads[i]? = some th ∧ th.prog = .ret response) → Comes tokens s s' n k r'

theorem comes_of_happens (h : Happens app tokens s m s') {n : Uuid} {k : Nat} {r' : JobRun}
    (hk : (s'.daemons n).runs[k]? = some r') : Comes tokens s s' n k r' := by
  -- the goroutines of the other daemons stay
  have hput : ∀ {t : Fleet} {n' : Uuid} {d : Daemon}, t.daemons = s.daemons →
      ((t.put n' d).daemons n).runs[k]? = some r' →
      (n = n' → d.runs[k]? = some r' → Comes tokens s s' n k r') → Comes tokens s s' n k r' := by
    intro t n' d ht hk hd
    simp only [Fleet.put, Function.update_apply, ht] at hk
    split at hk
    · rename_i hn
      exact hd hn hk
    · exact .goes hk .stays
  -- one goroutine enters a stage
  have henter : ∀ {t : Fleet} {n' : Uuid} {k' : Nat} {r : JobRun} {stage : Stage},
      t.daemons = s.daemons → (s.daemons n').runs[k']? = some r →
      ((t.put n' ((s.daemons n').enter k' r stage)).daemons n).runs[k]? = some r' →
      (n = n' → k = k' → r' = { r with stage } → Comes tokens s s' n k r') →
      Comes tokens s s' n k r' := by
    intro t n' k' r stage ht hr hk hd
    refine hput ht hk fun hn hset => ?_
    subst hn
    rcases getElem?_set_cases hset with ⟨hk', hr'⟩ | ⟨-, hold⟩
    · exact hd rfl hk' hr'
    · exact .goes hold .stays
  cases h with
  | server hforeign ht => exact .goes hk .stays
  | daemon ha =>
    refine hput rfl hk fun hn hd => ?_
    subst hn
    obtain ⟨r, hr, hgoes⟩ := Daemon.goes_act ha hd
    exact .goes hr hgoes
  | sendsHeartbeat hturn => exact hput rfl hk fun hn hk => .goes (hn ▸ hk) .stays
  | sendsClaim hturn => exact hput rfl hk fun hn hk => .goes (hn ▸ hk) .stays
  | hears hturn hi hprog =>
    refine hput rfl hk fun hn hd => ?_
    subst hn
    obtain ⟨r, hr, hgoes⟩ := Daemon.goes_afterHeartbeat hd
    exact .goes hr hgoes
  | hearsError hturn => exact hput rfl hk fun hn hk => .goes (hn ▸ hk) .stays
  | launches hturn hi hprog =>
    refine hput rfl hk fun hn hd => ?_
    subst hn
    rcases getElem?_concat_cases hd with hold | ⟨-, rfl⟩
    · exact .goes hold .stays
    · exact .launched rfl
  | findsNoJob hturn hi hprog => exact hput rfl hk fun hn hk => .goes (hn ▸ hk) .stays
  | claimsInVain hturn => exact hput rfl hk fun hn hk => .goes (hn ▸ hk) .stays
  | posts hr hstage =>
    refine henter rfl hr hk fun hn hk' hr' => ?_
    subst hn hk'
    exact .posts hr hstage hr' List.getElem?_concat_length rfl
  | isRejected hr hstage =>
    refine henter rfl hr hk fun hn hk' hr' => ?_
    subst hn hk'
    exact .isAnswered hr hstage hr' fun ha => by cases ha
  | isAccepted hr hstage hi hprog =>
    refine henter rfl hr hk fun hn hk' hr' => ?_
    subst hn hk'
    exact .isAnswered hr hstage hr' fun _ => ⟨_, _, _, rfl, hi, hprog⟩
  | isRefused hr hstage =>
    refine henter rfl hr hk fun hn hk' hr' => ?_
    subst hn hk'
    exact .isAnswered hr hstage hr' fun ha => by cases ha

theorem concluded_happens {db : Database} {clock : Time}
    (hr : Reach (controlPlane app) anyTerms (idle db clock) s.server)
    (h : Happens app tokens s m s') {id : Uuid} (hc : Concluded s.server.db id) :
    Concluded s'.server.db id := by
  rcases server_cases h with he | ⟨l, hl, -⟩
  · exact he ▸ hc
  · rcases (onward_ok rfl hr).db_cases hl with hsame | ⟨i, th, -, -, hcom, hview, -⟩
    · rw [hsame]; exact hc
    · rw [hview]; exact concluded_kept hcom hc

theorem reported_step {db : Database} {clock : Time}
    (hr : Reach (controlPlane app) anyTerms (idle db clock) s.server) (hI : Reported tokens s)
    (h : Happens app tokens s m s') : Reported tokens s' := by
  refine ⟨fun n k r' i hk hcall => ?_, fun n k r' hk haccepted => ?_⟩
  · have hold : ∀ {r : JobRun}, (s.daemons n).runs[k]? = some r → r.call = some i →
        r'.job = r.job → ∃ (th : Pending) (p : CompleteJobRequest),
        s'.server.threads[i]? = some th ∧
        th.req = .completeJob (some (tokens n)) r'.job.jobId p := by
      intro r hr hcall hjob
      obtain ⟨th, p, hi, hreq⟩ := hI.call n k r i hr hcall
      obtain ⟨th', hi', hreq', -⟩ := thread_onward h hi
      exact ⟨th', p, hi', by rw [hreq', hreq, hjob]⟩
    cases comes_of_happens h hk with
    | goes hr hgoes => exact hold hr (hgoes.call hcall) hgoes.job
    | launched hstage =>
      rw [JobRun.call, hstage] at hcall
      cases hcall
    | posts hr hstage hr' hi hreq =>
      subst hr'
      cases hcall
      exact ⟨_, _, hi, hreq⟩
    | isAnswered hr hstage hr' ha =>
      subst hr'
      cases hcall
  · cases comes_of_happens h hk with
    | goes hr' hgoes =>
      rw [hgoes.job]
      exact concluded_happens hr h (hI.accepted n k _ hr' (hgoes.accepted haccepted))
    | launched hstage =>
      rw [JobRun.accepted, hstage] at haccepted
      cases haccepted
    | posts hr' hstage hr'' hi hreq =>
      subst hr''
      cases haccepted
    | isAnswered hr' hstage hr'' ha =>
      rename_i r report call accepted
      subst hr''
      obtain ⟨i, th, response, rfl, hi, hprog⟩ := ha haccepted
      obtain ⟨th', p, hi', hreq⟩ := hI.call n k r i hr' (by rw [JobRun.call, hstage])
      rw [hi, Option.some.injEq] at hi'
      subst hi'
      exact concluded_happens hr h (concluded_of_answer hr hi hreq hprog)

/-- **A report that a daemon has seen accepted has ended its job**, in every state. -/
theorem reported_of_run {T : Fleet → FleetAct → Prop} {db : Database} {clock : Time}
    (h : Run (Fleet.step app tokens) T (atRest db clock) s) : Reported tokens s := by
  have hboth : Reach (controlPlane app) anyTerms (idle db clock) s.server ∧ Reported tokens s := by
    refine h.invariant (fun s => Reach (controlPlane app) anyTerms (idle db clock) s.server ∧
      Reported tokens s) (fun s m s' hI _ hs => ?_) ⟨Reach.refl, ?_⟩
    · obtain ⟨hr, hI⟩ := hI
      refine ⟨?_, reported_step hr hI (happens_of_step hs)⟩
      rcases server_cases (happens_of_step hs) with he | ⟨l, hl, -⟩
      · rw [he]; exact hr
      · exact hr.tail hl trivial
    · exact ⟨fun n k r i hk => by simp [atRest] at hk, fun n k r hk => by simp [atRest] at hk⟩
  exact hboth.2

/-! ## Holding a job -/

/-- The daemon of the node holds the job: it waits for the answer to the claim that has taken
it, or one of its goroutines is yet to run it, runs it, or reports it. -/
def Holds (tokens : Uuid → Str) (s : Fleet) (n id : Uuid) : Prop :=
  (∃ i, (s.daemons n).pendingClaim = some i ∧ Took tokens s.server n id i) ∨
  ∃ (k : Nat) (r : JobRun), (s.daemons n).runs[k]? = some r ∧ r.job.jobId = id ∧ r.isHeld = true

/-- The daemon of the node has lost the job: the claim that has taken it ended in an error
here, or its report did, or the process has ended before the report was answered. -/
def GaveUp (tokens : Uuid → Str) (s : Fleet) (n id : Uuid) : Prop :=
  (∃ i ∈ (s.daemons n).lost, Took tokens s.server n id i) ∨
  ∃ (k : Nat) (r : JobRun), (s.daemons n).runs[k]? = some r ∧ r.job.jobId = id ∧ r.isLost = true

/-- A job that runs on a node is held by its daemon. -/
def AllHeld (tokens : Uuid → Str) (s : Fleet) : Prop :=
  ∀ id n j, s.server.db.job id = some j → j.runningOn n = true → Holds tokens s n id

/-- A job that runs on a node is held by its daemon, or lost there. -/
def AllHeldOrGivenUp (tokens : Uuid → Str) (s : Fleet) : Prop :=
  ∀ id n j, s.server.db.job id = some j → j.runningOn n = true →
    Holds tokens s n id ∨ GaveUp tokens s n id

/-- **A job that runs on a node is held by its daemon**, unless a call about it ended in an
error there or the process has ended. -/
theorem running_jobs_are_held_or_given_up (app : App) (tokens : Uuid → Str) {db : Database}
    (hdb : NoneRunning db) (clock : Time)
    (h : Run (Fleet.step app tokens) (TokensOwned app tokens) (atRest db clock) s) :
    AllHeldOrGivenUp tokens s := by
  have hI := custody_of_run hdb (fun _ _ ht => ht) h
  have hok : (onward app).Ok s.server := onward_ok rfl hI.reach
  intro id n j hj hrun
  obtain ⟨i, th, hi, ha, ht⟩ := hI.claimed id n j hj hrun
  obtain ⟨th', tx, hi', hreq, htx, hc⟩ := ht
  rw [hi, Option.some.injEq] at hi'
  subst hi'
  have ht : Took tokens s.server n id i := ⟨th, tx, hi, hreq, htx, hc⟩
  rcases ha with hpend | hlost | ⟨k, r, hk, rfl⟩ | hno
  · exact Or.inl (Or.inl ⟨i, hpend, ht⟩)
  · exact Or.inr (Or.inl ⟨i, hlost, ht⟩)
  · obtain ⟨th', hth', hreq', hprog⟩ := hI.linked.run n k r hk
    rw [hi, Option.some.injEq] at hth'
    subst hth'
    have hid : r.job.jobId = id := (claims_of_answer_eq hok hi hreq hprog htx hc).symm
    cases haccepted : r.accepted with
    | false =>
      rcases JobRun.held_or_lost haccepted with hheld | hlost
      · exact Or.inl (Or.inr ⟨k, r, hk, hid, hheld⟩)
      · exact Or.inr (Or.inr ⟨k, r, hk, hid, hlost⟩)
    | true =>
      -- the job would have ended
      obtain ⟨j', hj', hterm⟩ := (reported_of_run h).accepted n k r hk haccepted
      rw [hid, hj, Option.some.injEq] at hj'
      rw [← hj', (runningOn_iff.1 hrun).2] at hterm
      cases hterm
  · rw [past_of_noContent hok hi hreq hno] at htx
    cases htx

theorem running_jobs_are_held_or_given_up_at_executing :
    ∃ s, Run (Fleet.step plainApp sampleTokens) (TokensOwned plainApp sampleTokens)
      (atRest queuedDb 0) s ∧
      (s.server.db.job 3).map (fun j => j.runningOn 2) = some true ∧
      AllHeldOrGivenUp sampleTokens s := by
  obtain ⟨s, hs, hjob⟩ := Option.bind_eq_some_iff.1 (show
    (play (Fleet.step plainApp sampleTokens) isHeedful (atRest queuedDb 0) executing).bind
      (fun s => (s.server.db.job 3).map fun j => j.runningOn 2) = some true by decide +kernel)
  have hr : Run (Fleet.step plainApp sampleTokens) (TokensOwned plainApp sampleTokens)
      (atRest queuedDb 0) s := Run.of_play (fun _ _ h => (isHeedful_sound h).1) hs
  exact ⟨s, hr, hjob, running_jobs_are_held_or_given_up plainApp sampleTokens
    noneRunning_queuedDb 0 hr⟩

/-- The daemon claims the job, and the answer is lost. -/
def lostRun : List FleetAct :=
  [.daemon 2 .boots, .daemon 2 .tick, .sends 2] ++ serves 0 7 ++ [.receives 2, .sends 2] ++
    serves 1 11 ++ [.daemon 2 .callFails]

/-- **A job can run on a node whose daemon has never heard of it.** -/
theorem lost_claim_is_held_by_nobody :
    ∃ s, Run (Fleet.step plainApp sampleTokens) (TokensOwned plainApp sampleTokens)
      (atRest queuedDb 0) s ∧ ¬ AllHeld sampleTokens s := by
  obtain ⟨s, hs, hend⟩ := Option.map_eq_some_iff.1 (show
    (play (Fleet.step plainApp sampleTokens) isHeedful (atRest queuedDb 0) lostRun).map
      (fun s => ((s.server.db.job 3).map fun j => j.runningOn 2,
        (s.daemons 2).pendingClaim, (s.daemons 2).runs)) = some (some true, none, []) by
      decide +kernel)
  obtain ⟨hjob, hdaemon⟩ := Prod.mk.inj hend
  obtain ⟨hpending, hruns⟩ := Prod.mk.inj hdaemon
  refine ⟨s, Run.of_play (fun _ _ h => (isHeedful_sound h).1) hs, fun h => ?_⟩
  obtain ⟨j, hj, hrun⟩ := Option.map_eq_some_iff.1 hjob
  rcases h 3 2 j hj hrun with ⟨i, hi, -⟩ | ⟨k, r, hk, -⟩
  · rw [hpending] at hi
    cases hi
  · rw [hruns] at hk
    simp at hk

end GpuNetwork.Agent
