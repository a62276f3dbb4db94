import GpuNetwork.Agent.Holding
import GpuNetwork.Commits.Queries
import GpuNetwork.Store.Amid

/-!
# A job that nobody holds

Once no daemon holds a running job nobody ever will: a claim is not repeated, and neither is a
report.  The job goes on running in the store, and its node has work for ever: the control
plane hands it no other job and refuses to remove it, whatever its owner or an admin does.

* `claimJob_amid`, `deleteNode_amid` — what is answered about a node while a job runs on it.
* `Forsaken`, `forsaken_step` — a running job that no daemon holds, and that it stays so.
* `forsaken_jobs_block_their_node`.
-/

namespace GpuNetwork

open ReadCommitted

/-- The job runs on the node. -/
def RunsOn (n id : Uuid) (db : Database) : Prop :=
  ∃ j, db.job id = some j ∧ j.runningOn n = true

section Answers

variable {app : App} {D : Database → Prop} {ses : Conn} {n id : Uuid}

/-- The query for the job of a node finds one. -/
theorem getRunningForNode_amid {Q : Option Job → Conn → Prop} (hD : ∀ db, D db → RunsOn n id db)
    (hw : ses.tx.writes = []) (hQ : ∀ j ses', ses'.tx.writes = [] → Q (some j) ses') :
    (getRunningForNode n).Amid D ses Q := by
  refine amid_bind (amid_select hw fun db o ses' hdb hsome hnone hw' => ?_)
  cases o with
  | none =>
    obtain ⟨j, hj, hrun⟩ := hD db hdb
    have hno := hnone rfl (.job j) (Db.mem_of_get (Db.get_job_iff.2 hj))
    rw [show Schema.holds (Cond.runningForNode n) (Row.job j) = j.runningOn n from rfl, hrun] at hno
    cases hno
  | some r =>
    obtain ⟨-, hholds⟩ := hsome r rfl
    cases r with
    | job j => exact hQ j ses' hw'
    | _ => cases hholds

/-- The token of a daemon is that of its own node. -/
theorem currentNode_amid {tokens : Uuid → Str} (hD : ∀ db, D db → Owned app tokens db)
    (hw : ses.tx.writes = []) :
    (currentNode app (some (tokens n))).Amid D ses fun node ses' =>
      node.id = n ∧ ses'.tx.writes = [] := by
  refine amid_bind ?_
  unfold authenticateAgent
  split
  · refine amid_bind (amid_bind (amid_select hw fun db o ses' hdb hsome _ hw' => ?_))
    cases o with
    | none => trivial
    | some r =>
      obtain ⟨hrow, hholds⟩ := hsome r rfl
      cases r with
      | node node =>
        have hprefix : node.agentTokenPrefix = some (lookupPrefix (tokens n)) :=
          of_decide_eq_true hholds
        have hnode := Db.get_node_iff.1 (Db.get_of_mem hrow)
        simp only [Prog.pure_eq, amid_ret]
        split
        · trivial
        · rename_i hash hhash
          cases hcheck : app.checkpw (tokens n) hash with
          | none => trivial
          | some valid =>
            cases valid with
            | true => exact ⟨hD db hdb n node hash hnode hprefix hhash hcheck, hw'⟩
            | false => trivial
      | _ => trivial
  · trivial

/-- **A daemon on whose node a job runs is given no other one.** -/
theorem claimJob_amid {tokens : Uuid → Str}
    (hD : ∀ db, D db → Owned app tokens db ∧ RunsOn n id db) :
    (claimJob app (some (tokens n))).Amid D {} fun a _ => a = .noContent := by
  refine amid_bind (amid_mono (fun node ses' hnode => ?_)
    (currentNode_amid (fun db hdb => (hD db hdb).1) rfl))
  obtain ⟨rfl, hw⟩ := hnode
  refine amid_bind ?_
  unfold claimForNode
  split
  · rfl
  · refine amid_bind (getRunningForNode_amid (fun db hdb => (hD db hdb).2) hw ?_)
    intro j ses' hw'
    rfl

/-- **A node on which a job runs is not removed.** -/
theorem deleteNode_amid (hD : ∀ db, D db → RunsOn n id db) (caller : Caller) :
    (deleteNode app caller n).Amid D {} fun _ _ => False := by
  refine amid_bind (amid_of_reads (reads_currentUser _) rfl fun owner ses hw => ?_)
  refine amid_bind (amid_bind (amid_bind (amid_select hw fun db o ses' _ hsome _ hw' => ?_)))
  cases o with
  | none => trivial
  | some r =>
    obtain ⟨-, hkey⟩ := hsome r rfl
    obtain ⟨node, rfl, rfl⟩ := Row.eq_node_of_key (of_decide_eq_true hkey)
    simp only [Prog.pure_eq, amid_ret]
    split
    · trivial
    · refine amid_bind (getRunningForNode_amid hD hw' ?_)
      intro j ses'' hw''
      trivial

end Answers

end GpuNetwork

namespace GpuNetwork.Agent

open ReadCommitted ReadCommitted.Spec Machine

/-- By itself no goroutine gets a job back. -/
theorem JobRun.Goes.held {r r' : JobRun} (h : r.Goes r') (hheld : r'.isHeld = true) :
    r.isHeld = true := by
  cases h with
  | stays => exact hheld
  | starts hstage => simp [isHeld, isOpen, hstage]
  | ends hstage => simp [isHeld, isOpen, hstage]
  | reports hstage => simp [isHeld, isOpen, hstage]
  | _ => cases hheld

theorem JobRun.held_of_open {r : JobRun} (h : r.isOpen = true) : r.isHeld = true := by
  unfold isHeld
  split
  · rfl
  · exact h

/-- The job runs on the node, no daemon holds it, and no report of it is under way. -/
structure Forsaken (tokens : Uuid → Str) (s : Fleet) (n id : Uuid) : Prop where
  running : RunsOn n id s.server.db
  unheld : ∀ n', ¬ Holds tokens s n' id
  settled : ∀ (i : Nat) (th : Pending) (bearer : Option Str) (p : CompleteJobRequest),
    s.server.threads[i]? = some th → th.req = .completeJob bearer id p → th.prog.Finished = true

/-- No deletion or cancel commits after what it had checked has ceased to hold. -/
def Careful (s : Fleet) : FleetAct → Prop
  | .server l => ∀ i th, Commits s.server l i th → ¬ Strands s.server.db th.ses.tx ∧
      ¬ Snatched s.server.db th.ses.tx
  | _ => True

variable {app : App} {tokens : Uuid → Str} {s s' : Fleet} {m : FleetAct} {n id : Uuid}

theorem Heedful.careful (h : Heedful s m) : Careful s m := by
  cases m with
  | server l => exact fun i th hc => (h i th hc).2
  | _ => trivial

/-! ## One step -/

theorem Forsaken.running_step {db : Database} {clock : Time} (hf : Forsaken tokens s n id)
    (hI : Custody app tokens db clock s) (hc : Careful s m) (h : Happens app tokens s m s') :
    RunsOn n id s'.server.db := by
  obtain ⟨j, hj, hrun⟩ := hf.running
  rcases server_cases h with he | ⟨l, hl, hm⟩
  · exact ⟨j, he ▸ hj, hrun⟩
  · rcases hI.ok.db_cases hl with hsame | ⟨i, th, -, hcommits, hcom, hview, -⟩
    · exact ⟨j, hsame ▸ hj, hrun⟩
    · rw [hview]
      obtain rfl := server_of_commits hm hcommits
      obtain ⟨hstrand, hsnatch⟩ := hc i th hcommits
      rcases running_kept hcom.of_also hstrand hsnatch hj hrun with hstill | ⟨bearer, p, hreq⟩
      · exact hstill
      · -- the reports of the job have been answered
        have hfin := hf.settled i th bearer p hcommits.1 hreq
        obtain ⟨k, hk⟩ := hcommits.2.1
        rw [hk] at hfin
        cases hfin

/-- **No daemon comes to hold a job again** after all of them have lost it. -/
theorem Forsaken.unheld_step {db : Database} {clock : Time} (hf : Forsaken tokens s n id)
    (hdb : QueuedUnassigned db) (hI : Custody app tokens db clock s)
    (hI' : Custody app tokens db clock s') (h : Happens app tokens s m s') (n' : Uuid) :
    ¬ Holds tokens s' n' id := by
  have hands := hands_of_happens h
  obtain ⟨j, hj, hrun⟩ := hf.running
  obtain ⟨i, th, hi, -, ht⟩ := hI.claimed id n j hj hrun
  have ht' := took_step h ht
  -- the claim that has taken the job is not pending anywhere
  have hpending : ∀ n', (s.daemons n').pendingClaim ≠ some i := by
    intro n' hp
    obtain ⟨th₁, hth₁, hreq₁⟩ := hI.linked.pending n' i hp
    obtain ⟨th₂, tx, hth₂, -, htx, hc⟩ := ht
    rw [hth₁, Option.some.injEq] at hth₂
    subst hth₂
    exact hf.unheld n' (Or.inl ⟨i, hp, th₁, tx, hth₁, hreq₁, htx, hc⟩)
  rintro (⟨i', hp', ht₁⟩ | ⟨k, r', hk', hid, hheld⟩)
  · obtain rfl := took_once hdb hI'.reach ht' ht₁
    rcases claimAt_cases hands (show (s'.daemons n').claimAt none = some i from hp') with
      hold | ⟨-, hslot, -⟩ | ⟨-, hnew, -, -⟩
    · exact hpending n' hold
    · cases hslot
    · have hlt : i < s.next := (List.getElem?_eq_some_iff.1 hi).1
      omega
  · cases comes_of_happens h hk' with
    | goes hr hgoes =>
      exact hf.unheld n' (Or.inr ⟨k, _, hr, hgoes.job ▸ hid, hgoes.held hheld⟩)
    | launched hstage =>
      have hclaim := took_once hdb hI'.reach ht' (hid ▸ hI'.linked.took hI'.reach hk')
      rcases claimAt_cases hands (show (s'.daemons n').claimAt (some k) = some i from
        Option.map_eq_some_iff.2 ⟨r', hk', hclaim.symm⟩) with hold | ⟨hp, -, -⟩ | ⟨hslot, -, -, -⟩
      · obtain ⟨r, hk, -⟩ := Option.map_eq_some_iff.1 hold
        obtain ⟨r'', hk'', hon⟩ := run_after hands hk
        rw [hk', Option.some.injEq] at hk''
        subst hk''
        have hopen := hon.isOpen (by rw [JobRun.isOpen, hstage])
        exact hf.unheld n' (Or.inr ⟨k, r, hk, hon.job ▸ hid, JobRun.held_of_open hopen⟩)
      · exact hpending n' hp
      · cases hslot
    | posts hr hstage hr' hi' hreq =>
      subst hr'
      exact hf.unheld n' (Or.inr ⟨k, _, hr, hid, by rw [JobRun.isHeld, hstage]⟩)
    | isAnswered hr hstage hr' ha =>
      subst hr'
      exact hf.unheld n' (Or.inr ⟨k, _, hr, hid, by rw [JobRun.isHeld, hstage]⟩)

theorem Forsaken.settled_step (hf : Forsaken tokens s n id) (h : Happens app tokens s m s')
    (hunheld : ∀ n', ¬ Holds tokens s' n' id) (i : Nat) (th' : Pending) (bearer : Option Str)
    (p : CompleteJobRequest) (hi : s'.server.threads[i]? = some th')
    (hreq : th'.req = .completeJob bearer id p) : th'.prog.Finished = true := by
  rcases thread_origin h hi with ⟨th, hth, hsame⟩ |
    ⟨-, hforeign | ⟨n', hn⟩ | ⟨n', hn, -⟩ | ⟨n', k, r, report, p', hk, hstage, -, hn⟩⟩
  · have hfin := hf.settled i th bearer p hth (hsame ▸ hreq)
    obtain ⟨th'', hth'', -, hprog⟩ := thread_onward h hth
    rw [hi, Option.some.injEq] at hth''
    rw [hth'', hprog hfin, hfin]
  · rw [hreq] at hforeign
    cases hforeign
  · rw [hreq] at hn
    cases hn
  · rw [hreq] at hn
    cases hn
  · rw [hreq] at hn
    cases hn
    exact absurd (Or.inr ⟨k, r, hk, rfl, by rw [JobRun.isHeld, hstage]⟩) (hunheld n')

/-- **A job that nobody holds stays so**, and goes on running. -/
theorem forsaken_step {db : Database} {clock : Time} (hdb : QueuedUnassigned db)
    (hI : Custody app tokens db clock s) (hI' : Custody app tokens db clock s')
    (hc : Careful s m) (h : Happens app tokens s m s') (hf : Forsaken tokens s n id) :
    Forsaken tokens s' n id := by
  have hunheld := hf.unheld_step hdb hI hI' h
  exact ⟨hf.running_step hI hc h, hunheld, hf.settled_step h hunheld⟩

/-! ## Runs -/

/-- What the control plane answers about the node of the daemon, while a job runs there. -/
def Barred (tokens : Uuid → Str) (n : Uuid) (req : Request) (a : Response) : Prop :=
  (req = .claimJob (some (tokens n)) → a = .noContent) ∧ ∀ caller, req ≠ .deleteNode caller n

theorem handle_barred (app : App) (tokens : Uuid → Str) (n id : Uuid) (req : Request) :
    ((controlPlane app).handle req).Amid (fun db => Owned app tokens db ∧ RunsOn n id db) {}
      fun a _ => Barred tokens n req a := by
  by_cases hclaim : req = .claimJob (some (tokens n))
  · subst hclaim
    refine amid_mono (fun a _ ha => ⟨fun _ => ha, fun caller he => by cases he⟩) ?_
    exact claimJob_amid fun _ hdb => hdb
  by_cases hdelete : ∃ caller, req = .deleteNode caller n
  · obtain ⟨caller, rfl⟩ := hdelete
    exact amid_mono (fun a _ ha => False.elim ha) (deleteNode_amid (fun _ hdb => hdb.2) caller)
  · refine amid_of_any fun a _ => ⟨fun he => absurd he hclaim, fun caller he => ?_⟩
    exact hdelete ⟨caller, he⟩

/-- The job blocks its node: it still runs there, no daemon holds it, no claim that the daemon of
the node has made since `s` has got a job, and no request to remove the node has succeeded. -/
structure Blocks (tokens : Uuid → Str) (n id : Uuid) (s s' : Fleet) : Prop where
  running : RunsOn n id s'.server.db
  unheld : ∀ n', ¬ Holds tokens s' n' id
  claims : ∀ (i : Nat) (th : Pending) (a : Response), s.next ≤ i →
    s'.server.threads[i]? = some th → th.req = .claimJob (some (tokens n)) → th.prog = .ret a →
    a = .noContent
  deletions : ∀ (i : Nat) (th : Pending) (caller : Caller) (a : Response), s.next ≤ i →
    s'.server.threads[i]? = some th → th.req = .deleteNode caller n → th.prog ≠ .ret a

/-- **A job that all daemons have lost blocks its node for ever**, whatever is requested. -/
theorem forsaken_jobs_block_their_node (app : App) (tokens : Uuid → Str) {db : Database}
    (hdb : NoneRunning db) (clock : Time)
    (h : Run (Fleet.step app tokens) (TokensOwned app tokens) (atRest db clock) s)
    (hf : Forsaken tokens s n id)
    (h' : Run (Fleet.step app tokens) (fun s m => TokensOwned app tokens s m ∧ Careful s m) s s') :
    Blocks tokens n id s s' := by
  have hkept : Custody app tokens db clock s' ∧ Forsaken tokens s' n id ∧
      Learns (fun db => Owned app tokens db ∧ RunsOn n id db) (Barred tokens n) s.next
        s'.server := by
    refine h'.invariant (fun s' => Custody app tokens db clock s' ∧ Forsaken tokens s' n id ∧
      Learns (fun db => Owned app tokens db ∧ RunsOn n id db) (Barred tokens n) s.next s'.server)
      (fun s₁ m s₂ hI ht hs => ?_) ⟨custody_of_run hdb (fun _ _ ht => ht) h, hf,
        fun i th hle hi => ?_⟩
    · obtain ⟨hcustody, hforsaken, hlearns⟩ := hI
      have hhappens := happens_of_step hs
      have hcustody' := custody_step hcustody ht.1 hhappens
      refine ⟨hcustody',
        forsaken_step hdb.unassigned hcustody hcustody' ht.2 hhappens hforsaken, ?_⟩
      rcases server_cases hhappens with he | ⟨l, hl, -⟩
      · rw [he]; exact hlearns
      · exact learns_step (handle_barred app tokens n id) hl ⟨ht.1, hforsaken.running⟩ hlearns
    · have hlt : i < s.next := (List.getElem?_eq_some_iff.1 hi).1
      omega
  obtain ⟨-, hforsaken, hlearns⟩ := hkept
  refine ⟨hforsaken.running, hforsaken.unheld, fun i th a hle hi hreq hret => ?_,
    fun i th caller a hle hi hreq hret => ?_⟩
  · have hlearned := hlearns i th hle hi
    rw [hret, hreq] at hlearned
    exact hlearned.1 rfl
  · have hlearned := hlearns i th hle hi
    rw [hret, hreq] at hlearned
    exact hlearned.2 caller rfl

theorem forsaken_lostRun {s : Fleet}
    (h : Run (Fleet.step plainApp sampleTokens) (TokensOwned plainApp sampleTokens)
      (atRest queuedDb 0) s)
    (hrun : RunsOn 2 3 s.server.db) (hpending : (s.daemons 2).pendingClaim = none)
    (hruns : (s.daemons 2).runs = []) : Forsaken sampleTokens s 2 3 := by
  have hI := custody_of_run noneRunning_queuedDb (fun _ _ ht => ht) h
  obtain ⟨j, hj, hon⟩ := hrun
  obtain ⟨i, th, hi, -, ht⟩ := hI.claimed 3 2 j hj hon
  -- no other daemon has a token
  have hnode : ∀ {n' : Uuid} {i' : Nat}, Took sampleTokens s.server n' 3 i' → n' = 2 := by
    intro n' i' ht'
    obtain rfl := took_once noneRunning_queuedDb.unassigned hI.reach ht ht'
    obtain ⟨th₁, -, hth₁, hreq₁, -⟩ := ht
    obtain ⟨th₂, -, hth₂, hreq₂, -⟩ := ht'
    rw [hth₁, Option.some.injEq] at hth₂
    rw [← hth₂, hreq₁, Request.claimJob.injEq, Option.some.injEq] at hreq₂
    by_contra hne
    rw [sampleTokens, sampleTokens, if_pos rfl, if_neg hne] at hreq₂
    exact absurd hreq₂ (by decide +kernel)
  have hnone : ∀ {k : Nat} {r : JobRun}, (s.daemons 2).runs[k]? ≠ some r := by
    intro k r hk
    rw [hruns] at hk
    cases hk
  refine ⟨⟨j, hj, hon⟩, ?_, fun i' th' bearer p hi' hreq => ?_⟩
  · rintro n' (⟨i', hp, ht'⟩ | ⟨k, r, hk, hid, -⟩)
    · rw [hnode ht', hpending] at hp
      cases hp
    · have htook := hI.linked.took hI.reach hk
      rw [hid] at htook
      exact absurd (hnode htook ▸ hk) hnone
  · obtain ⟨n', k, r, hk, hid, -⟩ := hI.linked.complete i' th' bearer 3 p hi' hreq
    have htook := hI.linked.took hI.reach hk
    rw [hid] at htook
    exact absurd (hnode htook ▸ hk) hnone

/-- The daemon asks for another job, the owner of the lost one cancels it, and the owner of the
node tries to remove it. -/
def afterLoss : List FleetAct :=
  [.daemon 2 .tick, .sends 2] ++ serves 2 7 ++ [.receives 2, .sends 2] ++ serves 3 2 ++
    [.receives 2, .server (.spawn (.cancelJob sampleCaller 3))] ++ serves 4 10 ++
    [.server (.spawn (.deleteNode sampleCaller 2))] ++ serves 5 4

theorem forsaken_jobs_block_their_node_at_afterLoss :
    ∃ s s', Run (Fleet.step plainApp sampleTokens) (TokensOwned plainApp sampleTokens)
      (atRest queuedDb 0) s ∧ Forsaken sampleTokens s 2 3 ∧
      Run (Fleet.step plainApp sampleTokens)
        (fun s m => TokensOwned plainApp sampleTokens s m ∧ Careful s m) s s' ∧
      (s'.server.db.job 3).map (fun j => j.cancelRequestedAt.isSome) = some true ∧
      (s'.server.threads.all fun th => th.prog.Finished) = true ∧
      Blocks sampleTokens 2 3 s s' := by
  obtain ⟨⟨s, s'⟩, hplay, hend⟩ := Option.map_eq_some_iff.1 (show
    ((play (Fleet.step plainApp sampleTokens) isHeedful (atRest queuedDb 0) lostRun).bind fun s =>
      (play (Fleet.step plainApp sampleTokens) isHeedful s afterLoss).map fun s' => (s, s')).map
      (fun p => (((p.1.server.db.job 3).map fun j => j.runningOn 2, (p.1.daemons 2).pendingClaim,
        (p.1.daemons 2).runs), (p.2.server.db.job 3).map fun j => j.cancelRequestedAt.isSome,
        p.2.server.threads.all fun th => th.prog.Finished)) =
      some ((some true, none, []), some true, true) by decide +kernel)
  obtain ⟨s₁, hs, hrest⟩ := Option.bind_eq_some_iff.1 hplay
  obtain ⟨s₂, hs', hpair⟩ := Option.map_eq_some_iff.1 hrest
  cases hpair
  obtain ⟨hlost, hafter⟩ := Prod.mk.inj hend
  obtain ⟨hjob, hdaemon⟩ := Prod.mk.inj hlost
  obtain ⟨hpending, hruns⟩ := Prod.mk.inj hdaemon
  obtain ⟨hflag, hanswered⟩ := Prod.mk.inj hafter
  have hr : Run (Fleet.step plainApp sampleTokens) (TokensOwned plainApp sampleTokens)
      (atRest queuedDb 0) s := Run.of_play (fun _ _ h => (isHeedful_sound h).1) hs
  have hr' : Run (Fleet.step plainApp sampleTokens)
      (fun s m => TokensOwned plainApp sampleTokens s m ∧ Careful s m) s s' :=
    Run.of_play (fun _ _ h => ⟨(isHeedful_sound h).1, (isHeedful_sound h).2.careful⟩) hs'
  have hf := forsaken_lostRun hr (Option.map_eq_some_iff.1 hjob) hpending hruns
  exact ⟨s, s', hr, hf, hr', hflag, hanswered,
    forsaken_jobs_block_their_node plainApp sampleTokens noneRunning_queuedDb 0 hr hf hr'⟩

end GpuNetwork.Agent
