import GpuNetwork.Jobs.StateMachine

/-!
# What an agent can change

Five routes take an agent token.  Whatever identifiers a request carries, it changes
nothing but what belongs to the node whose token it is.

* `AgentWrite` — the writes an agent may commit; `agent_writes` — it commits no others.
* `Confined` — the frame this leaves, table by table.
-/

namespace GpuNetwork

open ReadCommitted ReadCommitted.Spec

/-- The agent token of a request that needs one. -/
def agentBearer : Request → Option (Option Str)
  | .heartbeat bearer _ => some bearer
  | .pushMetrics bearer _ _ => some bearer
  | .claimJob bearer => some bearer
  | .completeJob bearer _ _ => some bearer
  | .pushLogs bearer _ _ => some bearer
  | _ => none

/-- The transaction has found the job `id` to be assigned to the node. -/
def FoundAssigned (tx : Transaction) (n : Node) (id : Uuid) (j : Job) : Prop :=
  tx.Read (.byKey (.job id)) (.job j) ∧ j.assignedNodeId = some n.id

/-- The writes an agent of the node commits. -/
inductive AgentWrite (req : Request) (tx : Transaction) (n : Node) : Write Row Key → Prop
  | seen {now : Option Time} :
      AgentWrite req tx n (.update (.node n) (.node { n with lastSeenAt := now }))
  | metric {w : Write Row Key} {g : Int} : w.target = .nodeMetric n.id g → AgentWrite req tx n w
  | claimed {j : Job} {now : Time} : tx.Locked (.claimable n.id n.gpuCount) (.job j) →
      AgentWrite req tx n (.update (.job j) (.job (j.claimedBy n.id now)))
  | completed {id : Uuid} {j j' : Job} : FoundAssigned tx n id j →
      AgentWrite req tx n (.update (.job j) (.job j'))
  | billed {bearer : Option Str} {id : Uuid} {p : CompleteJobRequest} {j : Job} {u : User}
      {hours : Int} : req = .completeJob bearer id p → FoundAssigned tx n id j →
      u.id = j.userId → AgentWrite req tx n (.update (.user u) (.user (u.billed hours)))
  | logged {l : JobLog} {j : Job} : FoundAssigned tx n l.jobId j →
      AgentWrite req tx n (.insert (.jobLog l))
  | audited {a : AuditLog} : AgentWrite req tx n (.insert (.auditLog a))

/-- A node but for when it was last seen. -/
def Node.unseen (n : Node) : Node := { n with lastSeenAt := none }

/-- An account but for its balance. -/
def User.unbilled (u : User) : User := { u with creditsGpuHours := 0 }

/-- Nothing has changed between `a` and `b` but what an agent of the node may change by a
request `req` that has read `tx`. -/
structure Confined (req : Request) (tx : Transaction) (n : Node) (a b : Database) : Prop where
  node : (b.node n.id).map Node.unseen = (a.node n.id).map Node.unseen
  nodes : ∀ id, id ≠ n.id → b.node id = a.node id
  metrics : ∀ id g, id ≠ n.id → b.get (.nodeMetric id g) = a.get (.nodeMetric id g)
  jobs : ∃ jobId, (∀ id, id ≠ jobId → b.job id = a.job id) ∧ (b.job jobId = a.job jobId ∨
    (∃ j, a.job jobId = some j ∧ j.claimable n.id n.gpuCount = true) ∨
    ∃ j, FoundAssigned tx n jobId j)
  logs : ∀ id, b.get (.jobLog id) = a.get (.jobLog id) ∨ (a.get (.jobLog id) = none ∧
    ∃ l j, b.get (.jobLog id) = some (.jobLog l) ∧ FoundAssigned tx n l.jobId j)
  users : ∀ id, b.user id = a.user id ∨
    ((b.user id).map User.unbilled = (a.user id).map User.unbilled ∧
      ∃ bearer jobId p j, req = .completeJob bearer jobId p ∧ FoundAssigned tx n jobId j ∧
        j.userId = id)
  claimTokens : ∀ id, b.get (.claimToken id) = a.get (.claimToken id)
  apiKeys : ∀ id, b.get (.apiKey id) = a.get (.apiKey id)
  auditLogs : ∀ id r, a.get (.auditLog id) = some r → b.get (.auditLog id) = some r

variable {app : App} {rely : Rely} {refusals : Prop} {db : Database} {req : Request}
  {tx : Transaction} {n : Node}

/-- **An agent commits no other writes**, and writes one job at most. -/
theorem agent_writes (h : Shape app req tx) {bearer : Option Str}
    (hreq : agentBearer req = some bearer) :
    ∃ n, AsNode app tx bearer n ∧ (∀ w ∈ tx.writes, AgentWrite req tx n w) ∧
      ∃ jobId, ∀ w ∈ tx.writes, ∀ id, w.target = .job id → id = jobId := by
  have hseen : ∀ {n : Node} {now : Time} {w : Write Row Key},
      w ∈ flushed (.node n) (.node { n with lastSeenAt := some now }) → AgentWrite req tx n w := by
    intro n now w hw
    rw [mem_flushed hw]
    exact .seen
  cases h with
  | heartbeat hn hid hw =>
    cases hreq
    refine ⟨_, hn, fun w hm => hseen (hw ▸ hm), 0, fun w hm id ht => ?_⟩
    rw [hw] at hm
    rw [target_of_mem_flushed hm] at ht
    cases ht
  | pushMetrics hn hid hups hw =>
    cases hreq
    refine ⟨_, hn, fun w hm => ?_, 0, fun w hm id ht => ?_⟩
    · rw [hw, List.mem_append] at hm
      rcases hm with hm | hm
      · obtain ⟨g, hg⟩ := hups w hm
        exact .metric hg
      · exact hseen hm
    · exact absurd ht (target_of_mem_seen _ hups hw w hm id)
  | claimJob hn hdrain hmiss hlock hfound hw hlogs =>
    cases hreq
    rename_i n j now a
    refine ⟨n, hn, fun w hm => ?_, j.id, fun w hm id ht => ?_⟩
    · rw [hw, List.mem_cons, List.mem_singleton] at hm
      rcases hm with rfl | rfl
      · exact .claimed hlock
      · exact .audited
    · rw [hw, List.mem_cons, List.mem_singleton] at hm
      rcases hm with rfl | rfl
      · exact (Key.job.inj ht).symm
      · cases ht
  | completeJob hn hread hassign hallowed hhours howner hfound hw hlogs =>
    cases hreq
    rename_i id p n j completedAt now owner hours a
    refine ⟨n, hn, fun w hm => ?_, j.id, fun w hm id' ht => ?_⟩
    · rw [hw, List.mem_cons, List.mem_append, List.mem_singleton] at hm
      rcases hm with rfl | hm | rfl
      · exact .completed ⟨hread, hassign⟩
      · cases owner with
        | none => simp [billWrites] at hm
        | some u =>
          rw [mem_flushed hm]
          exact .billed rfl ⟨hread, hassign⟩ (id_of_read_user howner.1)
      · exact .audited
    · rw [hw, List.mem_cons] at hm
      rcases hm with rfl | hm
      · exact (Key.job.inj ht).symm
      · exact absurd ht (target_of_mem_bill w hm id')
  | aside ha =>
    cases ha with
    | pushLogs hn hread hassign hw hlogs hseq =>
      cases hreq
      refine ⟨_, hn, fun w hm => ?_, 0, fun w hm id ht => ?_⟩
      · rw [hw] at hm
        obtain ⟨l, hl, rfl⟩ := List.mem_map.1 hm
        exact .logged ⟨by rw [(hlogs l hl).1]; exact hread, hassign⟩
      · rw [hw] at hm
        obtain ⟨l, -, rfl⟩ := List.mem_map.1 hm
        cases ht
    | _ => cases hreq
  | sets hs => cases hs <;> cases hreq
  | drain hd => cases hd <;> cases hreq
  | drained hd => cases hd <;> cases hreq
  | cancelQueued hc => cases hc <;> cases hreq
  | requestCancel hc => cases hc <;> cases hreq
  | cancelAgain hc => cases hc <;> cases hreq
  | _ => cases hreq

/-! ## Table by table -/

/-- The account in a row. -/
def rowUser : Option Row → Option User
  | some (.user u) => some u
  | _ => none

theorem user_eq_rowUser (db : Database) (id : Uuid) : db.user id = rowUser (db.get (.user id)) := by
  unfold Db.user rowUser
  rfl

/-- An agent's write to an account takes a bill from its balance. -/
theorem users_of_agent (hall : ∀ w ∈ tx.writes, AgentWrite req tx n w) (db : Database)
    (id : Uuid) : (tx.view db).user id = db.user id ∨
    (((tx.view db).user id).map User.unbilled = (db.user id).map User.unbilled ∧
      ∃ bearer jobId p j, req = .completeJob bearer jobId p ∧ FoundAssigned tx n jobId j ∧
        j.userId = id) := by
  rw [user_eq_rowUser, user_eq_rowUser]
  refine view_rel (R := fun o o' => rowUser o' = rowUser o ∨
    ((rowUser o').map User.unbilled = (rowUser o).map User.unbilled ∧
      ∃ bearer jobId p j, req = .completeJob bearer jobId p ∧ FoundAssigned tx n jobId j ∧
        j.userId = id)) (fun o => Or.inl rfl) (fun a b c hab hbc => ?_) (fun w hw o => ?_) db
  · rcases hab with hab | ⟨hab, hp⟩
    · rw [hab] at hbc; exact hbc
    · rcases hbc with hbc | ⟨hbc, -⟩
      · rw [hbc]; exact Or.inr ⟨hab, hp⟩
      · exact Or.inr ⟨hbc.trans hab, hp⟩
  · by_cases ht : w.target = .user id
    · cases hall w hw with
      | billed hreq hfound howner =>
        rename_i bearer jobId p j u hours
        refine Or.inr ⟨?_, bearer, jobId, p, j, hreq, hfound, ?_⟩
        · rw [Write.on_update ht]
          cases o with
          | none => rfl
          | some r =>
            cases r with
            | user x => simp [rowUser, Row.merge, User.merge, User.billed, User.unbilled]
            | _ => rfl
        · rw [← howner]; exact Key.user.inj ht
      | metric hm => rw [hm] at ht; cases ht
      | _ => cases ht
    · rw [Write.on_of_ne ht]; exact Or.inl rfl

/-- An agent's write to the logs adds a line of a job that is assigned to its node. -/
theorem logs_of_agent (hall : ∀ w ∈ tx.writes, AgentWrite req tx n w) (db : Database)
    (id : Uuid) : (tx.view db).get (.jobLog id) = db.get (.jobLog id) ∨
    (db.get (.jobLog id) = none ∧ ∃ l j, (tx.view db).get (.jobLog id) = some (.jobLog l) ∧
      FoundAssigned tx n l.jobId j) := by
  refine view_rel (R := fun o o' => o' = o ∨ (o = none ∧ ∃ l j, o' = some (.jobLog l) ∧
    FoundAssigned tx n l.jobId j)) (fun o => Or.inl rfl) (fun a b c hab hbc => ?_)
    (fun w hw o => ?_) db
  · rcases hab with rfl | ⟨ha, l, j, rfl, hl⟩
    · exact hbc
    · rcases hbc with rfl | ⟨hnone, -⟩
      · exact Or.inr ⟨ha, l, j, rfl, hl⟩
      · cases hnone
  · by_cases ht : w.target = .jobLog id
    · cases hall w hw with
      | logged hfound =>
        rename_i l j
        rw [Write.on_insert ht]
        cases o with
        | none => exact Or.inr ⟨rfl, l, j, rfl, hfound⟩
        | some r => exact Or.inl rfl
      | metric hm => rw [hm] at ht; cases ht
      | _ => cases ht
    · rw [Write.on_of_ne ht]; exact Or.inl rfl

/-- An agent's write to the audit log adds a row. -/
theorem auditLogs_of_agent (hall : ∀ w ∈ tx.writes, AgentWrite req tx n w) {db : Database}
    {id : Uuid} {r : Row} (hr : db.get (.auditLog id) = some r) :
    (tx.view db).get (.auditLog id) = some r := by
  refine view_rel (R := fun o o' => o = some r → o' = some r) (fun o ho => ho)
    (fun a b c hab hbc ha => hbc (hab ha)) (fun w hw o ho => ?_) db hr
  subst ho
  by_cases ht : w.target = .auditLog id
  · cases hall w hw with
    | audited => rw [Write.on_insert ht]; rfl
    | metric hm => rw [hm] at ht; cases ht
    | _ => cases ht
  · rw [Write.on_of_ne ht]

/-- An agent's write to the jobs claims or completes one of its node. -/
theorem jobs_of_agent (h : (platform app rely refusals).Committing db req tx)
    (hall : ∀ w ∈ tx.writes, AgentWrite req tx n w) {jobId : Uuid}
    (hne : (tx.view db).job jobId ≠ db.job jobId) :
    (∃ j, db.job jobId = some j ∧ j.claimable n.id n.gpuCount = true) ∨
      ∃ j, FoundAssigned tx n jobId j := by
  obtain ⟨w, hw, ht⟩ : ∃ w ∈ tx.writes, w.target = .job jobId := by
    by_contra hno
    push Not at hno
    exact hne (Db.job_congr (Tx.view_get hno db))
  cases hall w hw with
  | claimed hlock =>
    obtain ⟨hget, hclaim⟩ := h.get_of_locked hlock
    have hid := Key.job.inj ht
    exact Or.inl ⟨_, Db.get_job_iff.1 (hid ▸ hget), hclaim⟩
  | completed hfound =>
    have hid := id_of_read_job hfound.1
    have hid' := Key.job.inj ht
    subst hid
    subst hid'
    exact Or.inr ⟨_, hfound⟩
  | metric hm => rw [hm] at ht; cases ht
  | _ => cases ht

/-- An agent's write to a node notes when its own was last seen. -/
theorem node_of_agent (h : (platform app rely refusals).Committing db req tx)
    {bearer : Option Str} (hreq : agentBearer req = some bearer) (id : Uuid) :
    ((tx.view db).node id).map Node.unseen = (db.node id).map Node.unseen := by
  have hstep := node_step h id
  generalize db.node id = o at hstep ⊢
  generalize (tx.view db).node id = o' at hstep ⊢
  cases hstep with
  | same => rfl
  | seen => rfl
  | registered hr => rw [hr] at hreq; cases hreq
  | drained hd => cases hd <;> cases hreq
  | undrained hr => rw [hr] at hreq; cases hreq
  | deleted hr hw => rw [hr] at hreq; cases hreq

theorem confined_of_committing (h : (platform app rely refusals).Committing db req tx)
    {bearer : Option Str} (hreq : agentBearer req = some bearer)
    (hall : ∀ w ∈ tx.writes, AgentWrite req tx n w)
    (hone : ∃ jobId, ∀ w ∈ tx.writes, ∀ id, w.target = .job id → id = jobId) :
    Confined req tx n db (tx.view db) := by
  have hframe : ∀ k, (∀ w, AgentWrite req tx n w → w.target ≠ k) →
      (tx.view db).get k = db.get k :=
    fun k hk => Tx.view_get (fun w hw => hk w (hall w hw)) db
  obtain ⟨jobId, hone⟩ := hone
  refine ⟨node_of_agent h hreq n.id, fun id hid => ?_, fun id g hid => ?_,
    ⟨jobId, fun id hid => ?_, ?_⟩, logs_of_agent hall db, users_of_agent hall db,
    fun id => hframe _ fun w hw ht => ?_, fun id => hframe _ fun w hw ht => ?_,
    fun id r hr => auditLogs_of_agent hall hr⟩
  · refine Db.node_congr (hframe _ fun w hw ht => ?_)
    cases hw with
    | seen => exact hid (Key.node.inj ht).symm
    | metric hm => rw [hm] at ht; cases ht
    | _ => cases ht
  · refine hframe _ fun w hw ht => ?_
    cases hw with
    | metric hm => rw [hm] at ht; exact hid (Key.nodeMetric.inj ht).1.symm
    | _ => cases ht
  · exact Db.job_congr (Tx.view_get (fun w hw ht => hid (hone w hw id ht)) db)
  · by_cases hne : (tx.view db).job jobId = db.job jobId
    · exact Or.inl hne
    · exact Or.inr (jobs_of_agent h hall hne)
  · cases hw with
    | metric hm => rw [hm] at ht; cases ht
    | _ => cases ht
  · cases hw with
    | metric hm => rw [hm] at ht; cases ht
    | _ => cases ht

/-! ## Runs -/

/-- Whatever a request with an agent token does, it leaves the store alone, or has
authenticated as a node and changes what belongs to that node. -/
def AgentsConfined (app : App) : Terms Row Request ApiError Response := fun s l s' =>
  ∀ (i : Nat) (th : Pending) (bearer : Option Str), s.threads[i]? = some th →
    ((∃ pick, l = .run i pick) ∨ l = .abort i) → agentBearer th.req = some bearer →
    s'.db = s.db ∨ ∃ n, AsNode app th.ses.tx bearer n ∧
      Confined th.req th.ses.tx n s.db s'.db

/-- **An agent's authority is confined to its node**, along every run of the control
plane. -/
theorem agents_are_confined (app : App) (db : Database) (clock : Time)
    (ls : List (Label Request)) :
    Along (controlPlane app) (AgentsConfined app) (idle db clock) ls := by
  suffices ∀ s, Reach (controlPlane app) anyTerms (idle db clock) s →
      Along (controlPlane app) (AgentsConfined app) s ls from this _ Reach.refl
  induction ls with
  | nil => exact fun s _ => trivial
  | cons l ls ih =>
    intro s hr s' hs
    refine ⟨fun i th bearer hi hl hreq => ?_, ih s' (hr.tail hs trivial)⟩
    have hok : (onward app).Ok s := onward_ok rfl hr
    rcases hok.db_cases hs with hdb | ⟨j, tj, tj', hc, hcom, hdb, -⟩
    · exact Or.inl hdb
    · -- the thread that commits is the one that moves
      have hij : j = i := by
        obtain ⟨-, -, pick, rfl⟩ := hc
        rcases hl with ⟨pick', he⟩ | he
        · exact (Label.run.inj he).1
        · cases he
      subst hij
      rw [hc.1, Option.some.injEq] at hi
      subst hi
      obtain ⟨n, hn, hall, hone⟩ := agent_writes hcom.shape hreq
      rw [hdb]
      exact Or.inr ⟨n, hn, confined_of_committing hcom hreq hall hone⟩

end GpuNetwork
