import GpuNetwork.Agent.Handover
import GpuNetwork.Jobs.Canceller
import GpuNetwork.Nodes.Removal

/-!
# Jobs and the daemons that hold them

What the store says of a job goes together with what the daemons know of it: a job runs on a
node because a claim of its daemon has taken it, and nobody runs a job that another one runs.

* `Owned` — no node but its own accepts the token of a daemon.
* `Custody`, `custody_of_run` — every job that runs has been claimed by the daemon of its node.
* `no_job_is_run_twice`.
* `Watchful` — no claim or cancel commits after its check has become void.
* `Placed`, `placed_step` — a claimed job runs until a goroutine has run it.
* `Heedful`, `Seated`, `seated_of_run` — neither does a deletion, so that it runs on its node.
* `daemons_run_one_job_at_a_time`.
-/

namespace GpuNetwork

open ReadCommitted ReadCommitted.Spec

/-- No node but its own accepts the token of a daemon. -/
def Owned (app : App) (tokens : Uuid → Str) (db : Database) : Prop :=
  ∀ m n hash, db.node n.id = some n → n.agentTokenPrefix = some (lookupPrefix (tokens m)) →
    n.agentTokenHash = some hash → app.checkpw (tokens m) hash = some true → n.id = m

/-- The write ends a job as one in the queue that by now runs. -/
def snatches (db : Database) : Write Row Key → Bool
  | .update (.job old) (.job new) =>
    decide (old.status = .queued) && decide (new.status = .cancelled) &&
      (db.job old.id).any fun cur => decide (cur.status = .running)
  | _ => false

/-- What a cancel has read of its job no longer holds when it commits. -/
def Snatched (db : Database) (tx : Transaction) : Prop := ∃ w ∈ tx.writes, snatches db w = true

instance (db : Database) (tx : Transaction) : Decidable (Snatched db tx) :=
  inferInstanceAs (Decidable (∃ w ∈ tx.writes, snatches db w = true))

/-- The specification of the platform for daemons whose tokens are their own. -/
def custodial (app : App) (tokens : Uuid → Str) : Spec Row Key Cond Request ApiError Response :=
  overseeing app fun _ _ a _ => Owned app tokens a

variable {app : App} {tokens : Uuid → Str} {rely : Rely} {refusals : Prop} {db : Database}
  {req : Request} {tx : Transaction}

/-! ## One commit -/

/-- **A job that runs goes on running** where it does, unless its node is deleted, a completion
commits, or a cancel whose check no longer holds. -/
theorem running_after (h : (platform app rely refusals).Committing db req tx)
    (hsnatch : ¬ Snatched db tx) {id nodeId : Uuid} {j : Job}
    (hj : db.job id = some j) (hrun : j.runningOn nodeId = true) :
    (∃ j', (tx.view db).job id = some j' ∧ j'.runningOn nodeId = true) ∨
      (Strands db tx ∧ Stranded (tx.view db) nodeId id) ∨
      ∃ bearer p, req = .completeJob bearer id p := by
  obtain ⟨hnode, hstatus⟩ := runningOn_iff.1 hrun
  have hstep := job_step h id
  rw [hj] at hstep
  generalize hb : (tx.view db).job id = o at hstep
  cases hstep with
  | same => exact Or.inl ⟨j, rfl, hrun⟩
  | claimed hreq hn hdrain hmiss hclaim hfound hw =>
    rw [status_of_claimable hclaim] at hstatus
    cases hstatus
  | completed hreq hn hread hassign hallowed hw => exact Or.inr (Or.inr ⟨_, _, hreq⟩)
  | cancelled hreq hread hq hw =>
    refine absurd ⟨_, hw, ?_⟩ hsnatch
    simp [snatches, hq, id_of_read_job hread, hj, hstatus, Job.terminated]
  | cancelRequested hreq hread hr hnone hw =>
    refine Or.inl ⟨_, rfl, runningOn_iff.2 ?_⟩
    simpa [Job.merge, Job.cancelRequested] using And.intro hnode hstatus
  | nodeDeleted hreq hmiss hw =>
    rename_i caller n
    by_cases hn : nodeId = n.id
    · subst hn
      refine Or.inr (Or.inl ⟨⟨_, hw, exists_running_iff.2 ⟨id, j, hj, hrun⟩⟩,
        node_of_deletion h hreq hw, _, hb, hstatus, ?_⟩)
      simp [Job.cleared, setNull, hnode]
    · exact Or.inl ⟨_, rfl, runningOn_iff.2 ⟨by simp [Job.cleared, setNull, hnode, hn], hstatus⟩⟩

theorem running_kept (h : (platform app rely refusals).Committing db req tx)
    (hstrand : ¬ Strands db tx) (hsnatch : ¬ Snatched db tx) {id nodeId : Uuid} {j : Job}
    (hj : db.job id = some j) (hrun : j.runningOn nodeId = true) :
    (∃ j', (tx.view db).job id = some j' ∧ j'.runningOn nodeId = true) ∨
      ∃ bearer p, req = .completeJob bearer id p := by
  rcases running_after h hsnatch hj hrun with hstill | ⟨hst, -⟩ | hcompletes
  · exact Or.inl hstill
  · exact absurd hst hstrand
  · exact Or.inr hcompletes

/-- **A stranded job stays so**, unless a node of the same identifier is registered. -/
theorem stranded_kept (h : (platform app rely refusals).Committing db req tx)
    (hsnatch : ¬ Snatched db tx) {id nodeId : Uuid}
    (hnew : ∀ n : Node, n.id = nodeId → .insert (.node n) ∉ tx.writes)
    (hst : Stranded db nodeId id) :
    Stranded (tx.view db) nodeId id ∨ ∃ bearer p, req = .completeJob bearer id p := by
  obtain ⟨hgone, j, hj, hstatus, hnone⟩ := hst
  have hgone' : (tx.view db).node nodeId = none := by
    have hstep := node_step h nodeId
    rw [hgone] at hstep
    generalize (tx.view db).node nodeId = o at hstep
    cases hstep with
    | same => rfl
    | registered hreq hid hstatus hgpu hw => exact absurd hw (hnew _ hid)
    | deleted hreq hw => rfl
  have hstep := job_step h id
  rw [hj] at hstep
  generalize hb : (tx.view db).job id = o at hstep
  cases hstep with
  | same => exact Or.inl ⟨hgone', j, hb, hstatus, hnone⟩
  | claimed hreq hn hdrain hmiss hclaim hfound hw =>
    rw [status_of_claimable hclaim] at hstatus
    cases hstatus
  | completed hreq hn hread hassign hallowed hw => exact Or.inr ⟨_, _, hreq⟩
  | cancelled hreq hread hq hw =>
    refine absurd ⟨_, hw, ?_⟩ hsnatch
    simp [snatches, hq, id_of_read_job hread, hj, hstatus, Job.terminated]
  | cancelRequested hreq hread hr hno hw =>
    refine Or.inl ⟨hgone', _, hb, ?_⟩
    simpa [Job.merge, Job.cancelRequested] using And.intro hstatus hnone
  | nodeDeleted hreq hmiss hw =>
    exact Or.inl ⟨hgone', _, hb, hstatus, by simp [Job.cleared, setNull, hnone]⟩

/-- The node that a daemon's request is authenticated as is its own. -/
theorem id_of_asNode {P : Spec Row Key Cond Request ApiError Response} (h : P.Since req tx db)
    (hP : ∀ tx a b, P.rely req tx a b → Owned app tokens a) (hown : Owned app tokens db)
    {m : Uuid} {n : Node} (hn : AsNode app tx (some (tokens m)) n) : n.id = m := by
  obtain ⟨token, hash, hb, hhash, hcheck, e, he, -, hget, hholds⟩ := hn.bearer
  cases hb
  have hown' : Owned app tokens e.db := h.held he (I := Owned app tokens) hP hown
  exact hown' m n hash (Db.get_node_iff.1 hget) (of_decide_eq_true hholds) hhash hcheck

/-- A claim of a daemon takes its job for the daemon's node. -/
theorem running_of_claims (h : (custodial app tokens).Committing db req tx)
    (hown : Owned app tokens db) {m id : Uuid} (hreq : req = .claimJob (some (tokens m)))
    (hc : ClaimsJob req tx id) :
    ∃ j, (tx.view db).job id = some j ∧ j.runningOn m = true := by
  subst hreq
  obtain ⟨bearer, j', nodeId, now', rest, -, hw', rfl⟩ := hc
  obtain ⟨n, j, now, a, hn, -, -, hlock, -, hw⟩ := shape_of_claimJob h.shape.1
  have hview := (job_of_update h.of_also (by rw [hw]; exact List.mem_cons_self ..)).1
  rw [hw, List.cons.injEq, Write.update.injEq, Row.job.injEq] at hw'
  -- the claim has locked the job, so that it is as it was read
  have hj := Db.get_job_iff.1 (h.toSince.get_of_locked hlock).1
  have hmerge : j.merge (j.claimedBy n.id now) j = j.claimedBy n.id now := by
    simp [Job.merge, Job.claimedBy]
  rw [hj, Option.map_some, hmerge] at hview
  rw [← hw'.1.1]
  refine ⟨_, hview, runningOn_iff.2 ⟨?_, rfl⟩⟩
  rw [← id_of_asNode h.toSince (fun _ _ _ hr => hr) hown hn]
  rfl

end GpuNetwork

namespace GpuNetwork.Agent

open ReadCommitted ReadCommitted.Spec Machine

/-! ## Runs -/

/-- No request has arrived, and no process has been started. -/
def atRest (db : Database) (clock : Time) : Fleet := ⟨idle db clock, fun _ => {}⟩

theorem unstarted_atRest (db : Database) (clock : Time) : Unstarted (atRest db clock) :=
  ⟨rfl, fun _ => rfl⟩

/-- No node accepts the token of another's daemon, in any state. -/
def TokensOwned (app : App) (tokens : Uuid → Str) : Fleet → FleetAct → Prop :=
  fun s _ => Owned app tokens s.server.db

/-- The claim `i`, of the daemon of the node, has taken the job. -/
def Took (tokens : Uuid → Str) (s : System) (n id : Uuid) (i : Nat) : Prop :=
  ∃ (th : Pending) (tx : Transaction), s.threads[i]? = some th ∧
    th.req = .claimJob (some (tokens n)) ∧ tx ∈ th.ses.past ∧ ClaimsJob th.req tx id

/-- A commit is a step of the control plane. -/
theorem server_of_commits {s : Fleet} {m : FleetAct} {l : Label Request} {i : Nat} {th : Pending}
    (hm : m = .server l ∨ ∃ req, l = .spawn req) (hc : Commits s.server l i th) :
    m = .server l := by
  refine hm.resolve_right ?_
  rintro ⟨req, rfl⟩
  obtain ⟨-, -, pick, hpick⟩ := hc
  cases hpick

/-- What is so in every state. -/
structure Custody (app : App) (tokens : Uuid → Str) (db : Database) (clock : Time) (s : Fleet) :
    Prop where
  linked : Linked tokens s
  reach : Reach (controlPlane app) anyTerms (idle db clock) s.server
  ok : (custodial app tokens).Ok s.server
  /-- A job that runs on a node has been taken by a claim of its daemon. -/
  claimed : ∀ (id n : Uuid) (j : Job), s.server.db.job id = some j → j.runningOn n = true →
    ∃ (i : Nat) (th : Pending), s.server.threads[i]? = some th ∧ (s.daemons n).Accounts i th ∧
      Took tokens s.server n id i

variable {app : App} {tokens : Uuid → Str} {s s' : Fleet} {m : FleetAct}

theorem took_step (h : Happens app tokens s m s') {n id : Uuid} {i : Nat}
    (ht : Took tokens s.server n id i) : Took tokens s'.server n id i := by
  rcases server_cases h with he | ⟨l, hl, -⟩
  · rw [he]; exact ht
  · obtain ⟨th, tx, hi, hreq, htx, hc⟩ := ht
    obtain ⟨th', hi', hreq', htx'⟩ := past_later hl hi htx
    exact ⟨th', tx, hi', hreq'.trans hreq, htx', hreq' ▸ hc⟩

/-- The other daemons and the control plane count on tokens being their owners'. -/
theorem kept_of_owned {s s' : System} {l : Label Request} (hown : Owned app tokens s.db) :
    (custodial app tokens).Kept s l s' :=
  ⟨fun _ => trivial, fun _ _ _ _ _ _ _ _ _ => hown⟩

theorem custody_step {db : Database} {clock : Time} (hI : Custody app tokens db clock s)
    (hown : Owned app tokens s.server.db) (h : Happens app tokens s m s') :
    Custody app tokens db clock s' := by
  have hlinked := linked_step hI.linked h
  have hands := hands_of_happens h
  have hold : ∀ {id n : Uuid} {j : Job}, s.server.db.job id = some j → j.runningOn n = true →
      ∃ (i : Nat) (th : Pending), s'.server.threads[i]? = some th ∧
        (s'.daemons n).Accounts i th ∧ Took tokens s'.server n id i := by
    intro id n j hj hrun
    obtain ⟨i, th, hi, ha, ht⟩ := hI.claimed id n j hj hrun
    obtain ⟨th', hi', -, hprog⟩ := thread_onward h hi
    exact ⟨i, th', hi', accounts_step hands hi hprog ha, took_step h ht⟩
  rcases server_cases h with he | ⟨l, hl, -⟩
  · exact ⟨hlinked, he ▸ hI.reach, he ▸ hI.ok, fun id n j hj hrun => hold (he ▸ hj) hrun⟩
  refine ⟨hlinked, hI.reach.tail hl trivial,
    ok_step (rightful_valid app _) hI.ok hl (kept_of_owned hown), fun id n j' hj' hrun => ?_⟩
  rcases hI.ok.db_cases hl with hdb | ⟨i, th, th', hc, hcom, hdb, hths, hreq', hses⟩
  · exact hold (hdb ▸ hj') hrun
  · rw [hdb] at hj'
    rcases running_of_committing hcom.of_also hj' hrun with
      ⟨j, hj, hrun⟩ | ⟨bearer, j, now, hreq, hj, hq, hw⟩
    · exact hold hj hrun
    · -- the job is claimed by this commit
      obtain ⟨n', hb, ha⟩ := hI.linked.claim i th bearer hc.1 hreq
      subst hb
      have hshape := hcom.shape.1
      rw [hreq] at hshape
      obtain ⟨n₀, j₀, now₀, a, hn₀, -, -, -, -, hw₀⟩ := shape_of_claimJob hshape
      rw [hw₀] at hw
      simp only [List.mem_cons, Write.update.injEq, Row.job.injEq, reduceCtorEq, List.not_mem_nil,
        or_false] at hw
      obtain ⟨rfl, hclaimed⟩ := hw
      have hnode : n = n₀.id := Option.some.inj (congrArg Job.assignedNodeId hclaimed)
      have hown₀ := id_of_asNode hcom.toSince (fun _ _ _ hr => hr) hown hn₀
      have hlt : i < s.server.threads.length := (List.getElem?_eq_some_iff.1 hc.1).1
      have hi' : s'.server.threads[i]? = some th' := by
        rw [hths]
        exact List.getElem?_set_self hlt
      obtain ⟨th'', hi'', -, hprog⟩ := thread_onward h hc.1
      rw [hi', Option.some.injEq] at hi''
      subst hi''
      have hsame : n' = n := by rw [hnode, hown₀]
      refine ⟨i, th', hi', hsame ▸ accounts_step hands hc.1 hprog ha, th', th.ses.tx, hi',
        ?_, ?_, ?_⟩
      · rw [hreq', hreq, hnode, hown₀]
      · rw [hses]
        simp [Session.committed]
      · rw [hreq']
        exact ⟨_, j, _, _, _, hreq, hw₀, Db.id_of_job hj⟩

/-- A store in which no job runs. -/
structure NoneRunning (db : Database) : Prop where
  unassigned : QueuedUnassigned db
  idle : ∀ id j, db.job id = some j → j.status ≠ .running

theorem NoneRunning.lodged {db : Database} (h : NoneRunning db) : Lodged db :=
  fun id j _ hj hrun => absurd (runningOn_iff.1 hrun).2 (h.idle id j hj)

theorem custody_atRest {db : Database} (hdb : NoneRunning db) (clock : Time) :
    Custody app tokens db clock (atRest db clock) where
  linked := linked_of_unstarted (unstarted_atRest db clock)
  reach := Reach.refl
  ok := ok_of_no_threads rfl
  claimed id _ j hj hrun := absurd (runningOn_iff.1 hrun).2 (hdb.idle id j hj)

/-- **Every job that runs has been claimed by the daemon of its node**, in every state. -/
theorem custody_of_run {db : Database} (hdb : NoneRunning db) {clock : Time}
    {T : Fleet → FleetAct → Prop} (hT : ∀ s m, T s m → TokensOwned app tokens s m)
    (h : Run (Fleet.step app tokens) T (atRest db clock) s) : Custody app tokens db clock s :=
  h.invariant (Custody app tokens db clock)
    (fun s m _ hI ht hs => custody_step hI (hT s m ht) (happens_of_step hs))
    (custody_atRest hdb clock)

/-! ## One goroutine for each job -/

/-- A goroutine's claim has taken its job. -/
theorem Linked.took (h : Linked tokens s) {db : Database} {clock : Time}
    (hr : Reach (controlPlane app) anyTerms (idle db clock) s.server) {n : Uuid} {k : Nat}
    {r : JobRun} (hk : (s.daemons n).runs[k]? = some r) :
    Took tokens s.server n r.job.jobId r.claim := by
  obtain ⟨th, hth, hreq, hprog⟩ := h.run n k r hk
  obtain ⟨tx, htx, hc⟩ := claims_of_answer (onward_ok rfl hr) hth hreq hprog
  exact ⟨th, tx, hth, hreq, htx, hc⟩

/-- No two claims have taken the same job. -/
theorem took_once {db : Database} (hdb : QueuedUnassigned db) {clock : Time}
    (hr : Reach (controlPlane app) anyTerms (idle db clock) s.server) {n n' id : Uuid} {i i' : Nat}
    (h : Took tokens s.server n id i) (h' : Took tokens s.server n' id i') : i = i' := by
  obtain ⟨th, tx, hi, -, htx, hc⟩ := h
  obtain ⟨th', tx', hi', -, htx', hc'⟩ := h'
  by_contra hne
  exact claims_distinct app hdb hr i i' th th' hne hi hi' tx htx tx' htx' id hc hc'

/-- No job is run by two goroutines, of one daemon or of two. -/
def NoJobRunTwice (s : Fleet) : Prop :=
  ∀ (n n' : Uuid) (k k' : Nat) (r r' : JobRun), (s.daemons n).runs[k]? = some r →
    (s.daemons n').runs[k']? = some r' → r.job.jobId = r'.job.jobId → n = n' ∧ k = k'

theorem Linked.noJobRunTwice (h : Linked tokens s) {db : Database} (hdb : QueuedUnassigned db)
    {clock : Time} (hr : Reach (controlPlane app) anyTerms (idle db clock) s.server) :
    NoJobRunTwice s := by
  intro n n' k k' r r' hk hk' hjob
  have hclaim := took_once hdb hr (h.took hr hk) (hjob ▸ h.took hr hk')
  obtain ⟨hn, hslot⟩ := h.once n n' (some k) (some k') r.claim
    (Option.map_eq_some_iff.2 ⟨r, hk, rfl⟩) (Option.map_eq_some_iff.2 ⟨r', hk', hclaim.symm⟩)
  exact ⟨hn, Option.some.inj hslot⟩

/-- **No job is run twice**, whatever calls are lost, whatever requests interleave, and
whichever processes end and start again. -/
theorem no_job_is_run_twice (app : App) (tokens : Uuid → Str) {db : Database}
    (hdb : QueuedUnassigned db) (clock : Time)
    (h : Run (Fleet.step app tokens) anyStep (atRest db clock) s) : NoJobRunTwice s := by
  have hlinked := linked_of_run (unstarted_atRest db clock) h
  exact hlinked.noJobRunTwice hdb (reach_of_run h)

/-- The token of the daemon of `sampleNode`; the others have none. -/
def sampleTokens (n : Uuid) : Str := if n = 2 then sampleAgentToken else []

/-- The next `k` statements of the request `i`. -/
def serves (i k : Nat) : List FleetAct := (runs i k).map FleetAct.server

/-- The daemon of `sampleNode` starts, claims the job in the queue and runs it. -/
def executing : List FleetAct :=
  [.daemon 2 .boots, .daemon 2 .tick, .sends 2] ++ serves 0 7 ++ [.receives 2, .sends 2] ++
    serves 1 11 ++ [.receives 2, .daemon 2 (.starts 0)]

theorem noneRunning_queuedDb : NoneRunning queuedDb where
  unassigned id j hj _ := by rw [job_queuedDb hj]; rfl
  idle id j hj := by rw [job_queuedDb hj]; exact fun h => by cases h

theorem no_job_is_run_twice_at_executing :
    ∃ s, Run (Fleet.step plainApp sampleTokens) anyStep (atRest queuedDb 0) s ∧
      (s.daemons 2).runs.map (fun r => (r.job.jobId, r.stage)) = [(3, .running)] ∧
      NoJobRunTwice s := by
  obtain ⟨s, hs, hruns⟩ := Option.map_eq_some_iff.1 (show
    (play (Fleet.step plainApp sampleTokens) (fun _ _ => true) (atRest queuedDb 0) executing).map
      (fun s => (s.daemons 2).runs.map fun r => (r.job.jobId, r.stage)) = some [(3, .running)] by
      decide +kernel)
  have hr : Run (Fleet.step plainApp sampleTokens) anyStep (atRest queuedDb 0) s :=
    Run.of_play (fun _ _ _ => trivial) hs
  exact ⟨s, hr, hruns,
    no_job_is_run_twice plainApp sampleTokens noneRunning_queuedDb.unassigned 0 hr⟩

/-! ## One job at a time -/

/-- The transaction registers a node with the identifier of one that has been removed while a
job that its daemon has claimed runs. -/
def Revives (tokens : Uuid → Str) (s : System) (tx : Transaction) : Prop :=
  ∃ (n : Node) (id : Uuid) (i : Nat), .insert (.node n) ∈ tx.writes ∧
    Took tokens s n.id id i ∧ Stranded s.db n.id id

/-- No claim or cancel commits after what it had checked has ceased to hold, and no removed
node is revived. -/
def Watchful (tokens : Uuid → Str) (s : Fleet) : FleetAct → Prop
  | .server l => ∀ i th, Commits s.server l i th → ¬ Occupied s.server.db th.ses.tx ∧
      ¬ Snatched s.server.db th.ses.tx ∧ ¬ Revives tokens s.server th.ses.tx
  | _ => True

/-- The job runs on the node, or on none since the node has been removed. -/
def RunsOrStranded (db : Database) (n id : Uuid) : Prop :=
  (∃ j, db.job id = some j ∧ j.runningOn n = true) ∨ Stranded db n id

/-- The goroutine that the claim `i` has launched has run its job. -/
def HasRun (s : Fleet) (i : Nat) : Prop :=
  ∃ (n : Uuid) (k : Nat) (r : JobRun), (s.daemons n).runs[k]? = some r ∧ r.claim = i ∧
    r.isOpen = false

/-- A claimed job runs, until a goroutine has run it. -/
def ClaimsStand (tokens : Uuid → Str) (s : Fleet) : Prop :=
  ∀ i n id, Took tokens s.server n id i → RunsOrStranded s.server.db n id ∨ HasRun s i

/-- What is so in every state of a watchful run. -/
structure Placed (app : App) (tokens : Uuid → Str) (db : Database) (clock : Time) (s : Fleet) :
    Prop extends Custody app tokens db clock s where
  onePerNode : OnePerNode s.server.db
  stand : ClaimsStand tokens s

/-- The job of an open goroutine runs. -/
theorem Placed.running {db : Database} {clock : Time} (hI : Placed app tokens db clock s)
    {n : Uuid} {k : Nat} {r : JobRun} (hk : (s.daemons n).runs[k]? = some r)
    (hopen : r.isOpen = true) : RunsOrStranded s.server.db n r.job.jobId := by
  rcases hI.stand r.claim n r.job.jobId (hI.linked.took hI.reach hk) with
    hrun | ⟨n', k', r', hk', hclaim, hclosed⟩
  · exact hrun
  · -- the goroutine that has run the job is this one
    obtain ⟨rfl, hslot⟩ := hI.linked.once n n' (some k) (some k') r.claim
      (Option.map_eq_some_iff.2 ⟨r, hk, rfl⟩) (Option.map_eq_some_iff.2 ⟨r', hk', hclaim⟩)
    cases hslot
    rw [hk, Option.some.injEq] at hk'
    rw [hk', hclosed] at hopen
    cases hopen

/-- A goroutine that has run its job is still there. -/
theorem HasRun.step {i : Nat} (hr : HasRun s i) (h : Happens app tokens s m s') : HasRun s' i := by
  obtain ⟨n, k, r, hk, rfl, hclosed⟩ := hr
  obtain ⟨r', hk', hon⟩ := run_after (hands_of_happens h) hk
  exact ⟨n, k, r', hk', hon.claim, hon.closed hclosed⟩

/-- A claimed job goes on running when a commit is watchful, or it is completed. -/
theorem runs_of_committing {req : Request} {tx : Transaction}
    (h : (custodial app tokens).Committing s.server.db req tx) {n id : Uuid} {i : Nat}
    (ht : Took tokens s.server n id i) (hsnatch : ¬ Snatched s.server.db tx)
    (hrevive : ¬ Revives tokens s.server tx) (hruns : RunsOrStranded s.server.db n id) :
    RunsOrStranded (tx.view s.server.db) n id ∨ ∃ bearer p, req = .completeJob bearer id p := by
  rcases hruns with ⟨j, hj, hrun⟩ | hst
  · rcases running_after h.of_also hsnatch hj hrun with hrun | ⟨-, hst⟩ | hcompletes
    · exact Or.inl (Or.inl hrun)
    · exact Or.inl (Or.inr hst)
    · exact Or.inr hcompletes
  · have hnew : ∀ n' : Node, n'.id = n → .insert (.node n') ∉ tx.writes := by
      rintro n' rfl hw
      exact hrevive ⟨n', id, i, hw, ht, hst⟩
    rcases stranded_kept h.of_also hsnatch hnew hst with hst | hcompletes
    · exact Or.inl (Or.inr hst)
    · exact Or.inr hcompletes

/-- **A claimed job runs until its goroutine has run it**, after a step as before. -/
theorem claimsStand_step {db : Database} {clock : Time} (hdb : QueuedUnassigned db)
    (hI : Placed app tokens db clock s) (hown : Owned app tokens s.server.db)
    (ho : Watchful tokens s m) (h : Happens app tokens s m s') : ClaimsStand tokens s' := by
  intro i n id ht
  rcases server_cases h with he | ⟨l, hl, hm⟩
  · rw [he] at ht ⊢
    exact (hI.stand i n id ht).imp_right fun hr => hr.step h
  have hold : Took tokens s.server n id i →
      RunsOrStranded s'.server.db n id ∨ HasRun s' i := by
    intro ht
    rcases hI.stand i n id ht with hruns | hr
    · rcases hI.ok.db_cases hl with hsame | ⟨i₀, th₀, -, hc, hcom, hview, -⟩
      · rw [hsame]
        exact Or.inl hruns
      · rw [hview]
        obtain rfl := server_of_commits hm hc
        obtain ⟨-, hsnatch, hrevive⟩ := ho i₀ th₀ hc
        rcases runs_of_committing hcom ht hsnatch hrevive hruns with hruns | ⟨bearer, p, hreq⟩
        · exact Or.inl hruns
        · -- the job is reported by the goroutine that has run it
          obtain ⟨n', k, r, hk, hid, hr⟩ := hI.linked.complete i₀ th₀ bearer id p hc.1 hreq
          have hclaim := took_once hdb hI.reach ht (hid ▸ hI.linked.took hI.reach hk)
          exact Or.inr (HasRun.step ⟨n', k, r, hk, hclaim.symm, hr⟩ h)
    · exact Or.inr (hr.step h)
  obtain ⟨th', tx, hi, hreq, htx, hc⟩ := ht
  rcases past_cases hl hi with ⟨-, hnil⟩ | ⟨th, hth, hreq', hp | ⟨hcommits, hp⟩⟩
  · rw [hnil] at htx
    cases htx
  · exact hold ⟨th, tx, hth, hreq' ▸ hreq, hp ▸ htx, hreq' ▸ hc⟩
  · rw [hp] at htx
    rcases List.mem_append.1 htx with htx | htx
    · exact hold ⟨th, tx, hth, hreq' ▸ hreq, htx, hreq' ▸ hc⟩
    · rw [List.mem_singleton] at htx
      subst htx
      refine Or.inl (Or.inl ?_)
      rw [db_of_commits hcommits hl]
      exact running_of_claims (hI.ok.committing hcommits) hown (hreq' ▸ hreq) (hreq' ▸ hc)

theorem placed_step {db : Database} {clock : Time} (hdb : QueuedUnassigned db)
    (hI : Placed app tokens db clock s) (hown : Owned app tokens s.server.db)
    (ho : Watchful tokens s m) (h : Happens app tokens s m s') :
    Placed app tokens db clock s' := by
  refine { custody_step hI.toCustody hown h with
    onePerNode := ?_, stand := claimsStand_step hdb hI hown ho h }
  rcases server_cases h with he | ⟨l, hl, hm⟩
  · rw [he]; exact hI.onePerNode
  · rcases hI.ok.db_cases hl with hsame | ⟨i, th, -, hc, hcom, hview, -⟩
    · rw [hsame]; exact hI.onePerNode
    · rw [hview]
      obtain rfl := server_of_commits hm hc
      exact onePerNode_of_committing hcom.of_also (ho i th hc).1 hI.onePerNode

theorem placed_atRest {db : Database} (hdb : NoneRunning db) (clock : Time) :
    Placed app tokens db clock (atRest db clock) where
  toCustody := custody_atRest hdb clock
  onePerNode id id' j j' n hj _ hrun := absurd (runningOn_iff.1 hrun).2 (hdb.idle id j hj)
  stand i n id ht := by
    obtain ⟨th, tx, hi, -⟩ := ht
    simp [atRest, idle] at hi

/-- No claim, deletion or cancel commits after what it had checked has ceased to hold. -/
def Heedful (s : Fleet) : FleetAct → Prop
  | .server l => ∀ i th, Commits s.server l i th → ¬ Occupied s.server.db th.ses.tx ∧
      ¬ Strands s.server.db th.ses.tx ∧ ¬ Snatched s.server.db th.ses.tx
  | _ => True

/-- What is so in every state of a heedful run. -/
structure Seated (app : App) (tokens : Uuid → Str) (db : Database) (clock : Time) (s : Fleet) :
    Prop extends Placed app tokens db clock s where
  noOrphans : NoOrphans s.server.db

/-- A node is revived only where a job has been stranded. -/
theorem Heedful.watchful (h : Heedful s m) (hdb : NoOrphans s.server.db) :
    Watchful tokens s m := by
  cases m with
  | server l =>
    intro i th hc
    obtain ⟨hoccupied, -, hsnatch⟩ := h i th hc
    refine ⟨hoccupied, hsnatch, ?_⟩
    rintro ⟨n, id, i', -, -, hst⟩
    exact hdb.not_stranded n.id id hst
  | _ => trivial

theorem seated_step {db : Database} {clock : Time} (hdb : QueuedUnassigned db)
    (hI : Seated app tokens db clock s) (hown : Owned app tokens s.server.db) (ho : Heedful s m)
    (h : Happens app tokens s m s') : Seated app tokens db clock s' := by
  refine { placed_step hdb hI.toPlaced hown (ho.watchful hI.noOrphans) h with noOrphans := ?_ }
  rcases server_cases h with he | ⟨l, hl, hm⟩
  · rw [he]; exact hI.noOrphans
  · rcases hI.ok.db_cases hl with hsame | ⟨i, th, -, hc, hcom, hview, -⟩
    · rw [hsame]; exact hI.noOrphans
    · rw [hview]
      obtain rfl := server_of_commits hm hc
      exact noOrphans_of_committing hcom.of_also (ho i th hc).2.1 hI.noOrphans

/-- **A daemon's open jobs run on its node**, in every state of a heedful run. -/
theorem seated_of_run {db : Database} (hdb : NoneRunning db) {clock : Time}
    (h : Run (Fleet.step app tokens) (fun s m => TokensOwned app tokens s m ∧ Heedful s m)
      (atRest db clock) s) : Seated app tokens db clock s :=
  h.invariant (Seated app tokens db clock)
    (fun _ _ _ hI ht hs => seated_step hdb.unassigned hI ht.1 ht.2 (happens_of_step hs))
    { placed_atRest hdb clock with noOrphans := fun id j hj hrun => absurd hrun (hdb.idle id j hj) }

theorem Seated.running {db : Database} {clock : Time} (hI : Seated app tokens db clock s)
    {n : Uuid} {k : Nat} {r : JobRun} (hk : (s.daemons n).runs[k]? = some r)
    (hopen : r.isOpen = true) :
    ∃ j, s.server.db.job r.job.jobId = some j ∧ j.runningOn n = true :=
  (hI.toPlaced.running hk hopen).resolve_right (hI.noOrphans.not_stranded n r.job.jobId)

/-- No daemon has two goroutines that are yet to run a job, or run one. -/
def OneJobAtATime (s : Fleet) : Prop :=
  ∀ (n : Uuid) (k k' : Nat) (r r' : JobRun), (s.daemons n).runs[k]? = some r →
    (s.daemons n).runs[k']? = some r' → r.isOpen = true → r'.isOpen = true → k = k'

/-- **A daemon runs one job at a time**: it may lose answers, end and start again, and the
control plane gives it no second job while it has one. -/
theorem daemons_run_one_job_at_a_time (app : App) (tokens : Uuid → Str) {db : Database}
    (hdb : NoneRunning db) (clock : Time)
    (h : Run (Fleet.step app tokens) (fun s m => TokensOwned app tokens s m ∧ Heedful s m)
      (atRest db clock) s) : OneJobAtATime s := by
  have hI := seated_of_run hdb h
  intro n k k' r r' hk hk' hopen hopen'
  obtain ⟨j, hj, hrun⟩ := hI.running hk hopen
  obtain ⟨j', hj', hrun'⟩ := hI.running hk' hopen'
  have hjob := hI.onePerNode _ _ j j' n hj hj' hrun hrun'
  exact (hI.linked.noJobRunTwice hdb.unassigned hI.reach n n k k' r r' hk hk' hjob).2

/-- Only `sampleNode` has a token. -/
def tokensAreSample (db : Database) : Bool :=
  db.rows.all fun r =>
    match r with
    | .node n => decide (n.id = 2 ∧ n.agentTokenHash = some sampleAgentToken)
    | _ => true

theorem owned_of_sample {db : Database} (h : tokensAreSample db = true) :
    Owned plainApp sampleTokens db := by
  intro m n hash hn _ hhash hcheck
  have hnode := List.all_eq_true.1 h (.node n) (Db.mem_of_get (Db.get_node_iff.2 hn))
  obtain ⟨hid, hsample⟩ := of_decide_eq_true hnode
  have htoken : sampleTokens m = hash := by simpa [plainApp] using hcheck
  rw [hhash, Option.some.injEq] at hsample
  rw [hsample, sampleTokens] at htoken
  split at htoken
  · rename_i hm
    rw [hid, hm]
  · have hne : ([] : Str) ≠ sampleAgentToken := by decide +kernel
    exact absurd htoken hne

/-- Only `sampleNode` has a token, and the step is heedful, as a check. -/
def isHeedful (s : Fleet) (m : FleetAct) : Bool :=
  tokensAreSample s.server.db &&
  match m with
  | .server l => passes (fun s _ th => decide (¬ Occupied s.db th.ses.tx ∧
      ¬ Strands s.db th.ses.tx ∧ ¬ Snatched s.db th.ses.tx)) s.server l
  | _ => true

theorem isHeedful_sound {s : Fleet} {m : FleetAct} (h : isHeedful s m = true) :
    TokensOwned plainApp sampleTokens s m ∧ Heedful s m := by
  unfold isHeedful at h
  rw [Bool.and_eq_true] at h
  refine ⟨owned_of_sample h.1, ?_⟩
  cases m with
  | server l => exact fun i th hc => of_decide_eq_true (passes_sound h.2 hc)
  | _ => trivial

/-- The daemon asks for a second job before the goroutine of the first is scheduled. -/
def askingAgain : List FleetAct :=
  [.daemon 2 .boots, .daemon 2 .tick, .sends 2] ++ serves 0 7 ++ [.receives 2, .sends 2] ++
    serves 1 11 ++ [.receives 2, .daemon 2 .tick, .sends 2] ++ serves 2 7 ++
    [.receives 2, .sends 2] ++ serves 3 2 ++ [.receives 2, .daemon 2 (.starts 0)]

theorem daemons_run_one_job_at_a_time_at_askingAgain :
    ∃ s, Run (Fleet.step plainApp sampleTokens)
      (fun s m => TokensOwned plainApp sampleTokens s m ∧ Heedful s m) (atRest queuedDb 0) s ∧
      (s.daemons 2).runs.map (fun r => (r.job.jobId, r.stage)) = [(3, .running)] ∧
      OneJobAtATime s := by
  obtain ⟨s, hs, hruns⟩ := Option.map_eq_some_iff.1 (show
    (play (Fleet.step plainApp sampleTokens) isHeedful (atRest queuedDb 0) askingAgain).map
      (fun s => (s.daemons 2).runs.map fun r => (r.job.jobId, r.stage)) = some [(3, .running)] by
      decide +kernel)
  have hr : Run (Fleet.step plainApp sampleTokens)
      (fun s m => TokensOwned plainApp sampleTokens s m ∧ Heedful s m) (atRest queuedDb 0) s :=
    Run.of_play (fun _ _ h => isHeedful_sound h) hs
  exact ⟨s, hr, hruns,
    daemons_run_one_job_at_a_time plainApp sampleTokens noneRunning_queuedDb 0 hr⟩

end GpuNetwork.Agent
