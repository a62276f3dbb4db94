import GpuNetwork.Commits.AllOrNothing
import GpuNetwork.Jobs.Assignment
import GpuNetwork.Nodes.Drain

/-!
# Draining is sticky

Heartbeats, metrics, drains and undrains each load the row of a node and write it back,
and any number of them may do so at a time.  An `UPDATE` writes the columns its request
changed on the copy it loaded, so a stale copy does no harm: the status changes only when
a drain or an undrain commits, and the time the node was last seen only when its agent
reports.

* `seenTarget`, `statusTarget` — the requests that write the one column or the other.
* `seen_of_answer` — a report of the agent that is answered has written the time.
* `DrainSticks` — what holds of the two columns in a state and from it on.
-/

namespace GpuNetwork

open ReadCommitted ReadCommitted.Spec

/-- The node whose agent a request comes from, if it notes when the node was last seen. -/
def seenTarget : Request → Option Uuid
  | .heartbeat _ nodeId => some nodeId
  | .pushMetrics _ nodeId _ => some nodeId
  | _ => none

/-- The node whose status a request writes, and the status. -/
def statusTarget : Request → Option (Uuid × NodeStatus)
  | .drainNode _ nodeId => some (nodeId, .draining)
  | .forceDrainNode _ nodeId => some (nodeId, .draining)
  | .undrainNode _ nodeId => some (nodeId, .online)
  | _ => none

/-- The transaction of a drain or an undrain that changes the status on its copy. -/
def WritesStatus (req : Request) (tx : Transaction) (id : Uuid) (status : NodeStatus) : Prop :=
  statusTarget req = some (id, status) ∧ ∃ old : Node, old.id = id ∧ old.status ≠ status ∧
    .update (.node old) (.node { old with status }) ∈ tx.writes

variable {app : App} {rely : Rely} {refusals : Prop} {db : Database} {req : Request}
  {tx : Transaction}

/-- What a drain or an undrain commits. -/
theorem shape_of_status {id : Uuid} {status : NodeStatus} (h : Shape app req tx)
    (hreq : statusTarget req = some (id, status)) :
    tx.writes = [] ∨ ∃ (n : Node) (a : AuditLog), n.id = id ∧ n.status ≠ status ∧
      tx.Found (.node id) ∧
      tx.writes = [.update (.node n) (.node { n with status }), .insert (.auditLog a)] := by
  cases h with
  | drain hd hread hstatus hfound hw hlogs =>
    have hid := id_of_read_node hread
    subst hid
    cases hd <;> cases hreq <;> exact Or.inr ⟨_, _, rfl, hstatus, hfound, hw⟩
  | drained hd hread hstatus hw => exact Or.inl hw
  | undrain hread hstatus hfound hw hlogs =>
    have hid := id_of_read_node hread
    subst hid
    cases hreq
    exact Or.inr ⟨_, _, rfl, by rw [hstatus]; simp, hfound, hw⟩
  | aside ha => cases ha <;> cases hreq
  | sets hs => cases hs <;> cases hreq
  | cancelQueued hc => cases hc <;> cases hreq
  | requestCancel hc => cases hc <;> cases hreq
  | cancelAgain hc => cases hc <;> cases hreq
  | _ => cases hreq

/-- What a report of an agent commits on its node. -/
theorem shape_of_seen {id : Uuid} (h : Shape app req tx) (hreq : seenTarget req = some id) :
    ∃ (n : Node) (now : Time) (ups : List (Write Row Key)), n.id = id ∧
      (∀ w ∈ ups, ∃ g, w.target = .nodeMetric n.id g) ∧
      tx.writes = ups ++ flushed (.node n) (.node { n with lastSeenAt := some now }) := by
  cases h with
  | heartbeat hn hid hw =>
    cases hreq
    exact ⟨_, _, [], hid, by simp, hw⟩
  | pushMetrics hn hid hups hw =>
    cases hreq
    exact ⟨_, _, _, hid, hups, hw⟩
  | aside ha => cases ha <;> cases hreq
  | sets hs => cases hs <;> cases hreq
  | drain hd => cases hd <;> cases hreq
  | drained hd => cases hd <;> cases hreq
  | cancelQueued hc => cases hc <;> cases hreq
  | requestCancel hc => cases hc <;> cases hreq
  | cancelAgain hc => cases hc <;> cases hreq
  | _ => cases hreq

/-- **A drain or an undrain writes the status and nothing else**, however stale its copy. -/
theorem node_of_status (h : (platform app rely refusals).Committing db req tx) {id : Uuid}
    {status : NodeStatus} (hreq : statusTarget req = some (id, status)) {n : Node}
    (hn : db.node id = some n) :
    (tx.writes = [] ∧ (tx.view db).node id = some n) ∨
      (WritesStatus req tx id status ∧ (tx.view db).node id = some { n with status }) := by
  rcases shape_of_status h.shape hreq with hw | ⟨old, a, hid, hne, -, hw⟩
  · exact Or.inl ⟨hw, by rw [Tx.view_of_no_writes hw, hn]⟩
  · refine Or.inr ⟨⟨hreq, old, hid, hne, by rw [hw]; exact List.mem_cons_self ..⟩, ?_⟩
    rw [node_view_update hw (by simp [Write.target, Row.key]) id, if_pos hid, hn, Option.map_some]
    simp [Node.merge, col_of_ne (Ne.symm hne)]

/-- **A report of the agent writes the time and nothing else**, however stale its copy. -/
theorem node_of_seen (h : (platform app rely refusals).Committing db req tx) {id : Uuid}
    (hreq : seenTarget req = some id) {n : Node} (hn : db.node id = some n) :
    ∃ lastSeenAt, (tx.view db).node id = some { n with lastSeenAt } ∧
      ∀ old new, .update (.node old) (.node new) ∈ tx.writes → lastSeenAt = new.lastSeenAt := by
  obtain ⟨m, now, ups, hid, hups, hw⟩ := shape_of_seen h.shape hreq
  have hnode : ∀ w ∈ ups, ∀ id, w.target ≠ .node id := by
    intro w hm id
    obtain ⟨g, hg⟩ := hups w hm
    rw [hg]
    simp
  have hview : (tx.view db).node id = if m.id = id then (db.node id).map
      (m.merge { m with lastSeenAt := some now }) else db.node id := node_view_flushed hnode hw id
  rw [if_pos hid, hn, Option.map_some] at hview
  refine ⟨col m.lastSeenAt (some now) n.lastSeenAt, ?_, fun old new hmem => ?_⟩
  · rw [hview]
    simp [Node.merge]
  · rw [hw, List.mem_append] at hmem
    rcases hmem with hmem | hmem
    · exact absurd rfl (hnode _ hmem old.id)
    · -- the flush has something to write, so it is the time
      have hne : (Row.node { m with lastSeenAt := some now }) ≠ .node m := by
        intro he
        rw [flushed, if_pos he] at hmem
        simp at hmem
      obtain ⟨hold, hnew⟩ := Write.update.inj (mem_flushed hmem)
      cases Row.node.inj hold
      cases Row.node.inj hnew
      refine col_of_ne (fun he => hne ?_) _
      rw [he]

/-- **A report of the agent that is answered has written the time**, if it was not on its copy
already. -/
theorem seen_of_answer {s₀ s : System} (h₀ : s₀.threads = [])
    (h : Reach (controlPlane app) anyTerms s₀ s) {i : Nat} {th : Pending}
    (hi : s.threads[i]? = some th) {id : Uuid} (hreq : seenTarget th.req = some id) {r : Response}
    (hp : th.prog = .ret r) : ∃ tx ∈ th.ses.past, ∃ (n : Node) (now : Time), n.id = id ∧
      (n.lastSeenAt = some now ∨
        .update (.node n) (.node { n with lastSeenAt := some now }) ∈ tx.writes) := by
  have hpast : th.ses.past ≠ [] := by
    intro hnil
    have hidle := (allOrNothing_of_run h₀ h hi).done r hp hnil
    cases hreq' : th.req with
    | heartbeat bearer nodeId => rw [hreq'] at hidle; exact hidle
    | pushMetrics bearer nodeId samples => rw [hreq'] at hidle; exact hidle
    | _ => rw [hreq'] at hreq; cases hreq
  obtain ⟨tx, htx⟩ := List.exists_mem_of_ne_nil _ hpast
  obtain ⟨n, now, ups, hid, -, hw⟩ := shape_of_seen (shape_of_reach h₀ h hi htx) hreq
  refine ⟨tx, htx, n, now, hid, ?_⟩
  by_cases hsame : (Row.node { n with lastSeenAt := some now }) = .node n
  · exact Or.inl (congrArg Node.lastSeenAt (Row.node.inj hsame)).symm
  · refine Or.inr ?_
    rw [hw, flushed, if_neg hsame]
    exact List.mem_append_right _ (List.mem_singleton_self _)

/-- **The status of a node changes only where it is written.** -/
theorem status_of_committing (h : (platform app rely refusals).Committing db req tx) {id : Uuid}
    {n n' : Node} (hn : db.node id = some n) (hn' : (tx.view db).node id = some n')
    (hne : n'.status ≠ n.status) : WritesStatus req tx id n'.status := by
  -- a request that writes the status, and has changed it
  have hwrites : ∀ status, statusTarget req = some (id, status) →
      WritesStatus req tx id n'.status := by
    intro status hreq
    rcases node_of_status h hreq hn with ⟨-, hsame⟩ | ⟨hw, hview⟩
    · rw [hn', Option.some.injEq] at hsame
      exact absurd (congrArg Node.status hsame) hne
    · rw [hn', Option.some.injEq] at hview
      rw [hview]
      exact hw
  have hstep := node_step h id
  rw [hn, hn'] at hstep
  cases hstep with
  | same => exact absurd rfl hne
  | seen => exact absurd rfl hne
  | drained hd hread hstatus => cases hd <;> exact hwrites .draining rfl
  | undrained hreq hread hstatus => exact hwrites .online (by rw [hreq]; rfl)

/-- A commit that neither undrains the node nor deletes it leaves it draining. -/
theorem draining_of_committing (h : (platform app rely refusals).Committing db req tx) {id : Uuid}
    (hundrain : ∀ caller, req ≠ .undrainNode caller id)
    (hdelete : ∀ caller, req ≠ .deleteNode caller id) {n : Node} (hn : db.node id = some n)
    (hstatus : n.status = .draining) :
    ∃ n', (tx.view db).node id = some n' ∧ n'.status = .draining := by
  have hstep := node_step h id
  rw [hn] at hstep
  generalize (tx.view db).node id = o at hstep
  cases hstep with
  | same => exact ⟨n, rfl, hstatus⟩
  | seen => exact ⟨_, rfl, hstatus⟩
  | drained hd hread hstatus' => exact ⟨_, rfl, rfl⟩
  | undrained hreq hread hstatus' => exact absurd hreq (hundrain _)
  | deleted hreq hw => exact absurd hreq (hdelete _)

/-! ## Runs -/

/-- An undrain of the node commits, or a request that deletes it. -/
def EndsDrain (id : Uuid) (s : System) (l : Label Request) : Prop :=
  ∃ i th, Commits s l i th ∧
    ((∃ caller, th.req = .undrainNode caller id) ∨ ∃ caller, th.req = .deleteNode caller id)

/-- What holds of the status of the nodes and of the times they were last seen, in a state
and from it on. -/
structure DrainSticks (app : App) (s : System) : Prop where
  /-- The status of a node changes at the commit of a drain or undrain that has written it,
  and becomes what that has written. -/
  statusWritten : ∀ (l : Label Request) (s' : System) (id : Uuid) (n n' : Node),
    step (controlPlane app) s l = some s' → s.db.node id = some n → s'.db.node id = some n' →
    n'.status ≠ n.status →
    ∃ i th, Commits s l i th ∧ WritesStatus th.req th.ses.tx id n'.status
  /-- From the commit of a drain that has written the status until an undrain commits, or
  the node is deleted, it is shown as draining, whenever it was last seen. -/
  draining : ∀ (l : Label Request) (s₁ s₂ : System) (i : Nat) (th : Pending) (id : Uuid),
    step (controlPlane app) s l = some s₁ → Commits s l i th →
    WritesStatus th.req th.ses.tx id .draining →
    Reach (controlPlane app) (fun s l _ => ¬ EndsDrain id s l) s₁ s₂ →
    ∃ n, s₂.db.node id = some n ∧ ∀ lastSeenAt now,
      computeNodeStatus { n with lastSeenAt } now = .draining
  /-- A drain or an undrain leaves the time as it finds it at its commit. -/
  seenKept : ∀ (l : Label Request) (s' : System) (i : Nat) (th : Pending) (id : Uuid)
    (status : NodeStatus) (n : Node), step (controlPlane app) s l = some s' → Commits s l i th →
    statusTarget th.req = some (id, status) → s.db.node id = some n →
    ∃ n', s'.db.node id = some n' ∧ n'.lastSeenAt = n.lastSeenAt
  /-- A heartbeat or a push of metrics that has written a time leaves that time, and the
  status as it finds it at its commit. -/
  seenWritten : ∀ (l : Label Request) (s' : System) (i : Nat) (th : Pending) (id : Uuid)
    (n old new : Node), step (controlPlane app) s l = some s' → Commits s l i th →
    seenTarget th.req = some id → s.db.node id = some n →
    .update (.node old) (.node new) ∈ th.ses.tx.writes →
    ∃ n', s'.db.node id = some n' ∧ n'.lastSeenAt = new.lastSeenAt ∧ n'.status = n.status

/-- **A drain sticks**, whatever requests interleave, and takes no report of the agent with
it. -/
theorem draining_sticks (app : App) (db : Database) (clock : Time) {s : System}
    (h : Reach (controlPlane app) anyTerms (idle db clock) s) : DrainSticks app s := by
  have hok : (onward app).Ok s := onward_ok rfl h
  refine ⟨?_, ?_, ?_, ?_⟩
  · intro l s' id n n' hst hn hn' hne
    rcases hok.db_cases hst with hdb | ⟨i, th, th', hc, hcom, hdb, -⟩
    · rw [hdb, hn, Option.some.injEq] at hn'
      exact absurd (congrArg Node.status hn'.symm) hne
    · rw [hdb] at hn'
      exact ⟨i, th, hc, status_of_committing hcom hn hn' hne⟩
  · intro l s₁ s₂ i th id hst hc hw hr
    have hok₁ : (onward app).Ok s₁ := onward_ok rfl (h.tail hst trivial)
    have hnow : ∃ n, s₁.db.node id = some n ∧ n.status = .draining := by
      have hcom := hok.committing hc
      rw [db_of_commits hc hst]
      rcases shape_of_status hcom.shape hw.1 with hnil | ⟨old, a, -, -, hfound, -⟩
      · obtain ⟨-, old, -, -, hmem⟩ := hw
        rw [hnil] at hmem
        simp at hmem
      · obtain ⟨n, hn⟩ := node_of_found hcom.toSince hfound
        rcases node_of_status hcom hw.1 hn with ⟨hnil, -⟩ | ⟨-, hview⟩
        · obtain ⟨-, old, -, -, hmem⟩ := hw
          rw [hnil] at hmem
          simp at hmem
        · exact ⟨_, hview, rfl⟩
    -- the node stays draining up to the next undrain
    have hkept : (onward app).Ok s₂ ∧ ∃ n, s₂.db.node id = some n ∧ n.status = .draining := by
      refine hr.invariant (fun s => (onward app).Ok s ∧
        ∃ n, s.db.node id = some n ∧ n.status = .draining)
        (fun s l s' hs hst hkeep => ⟨ok_step (platform_valid app _ _) hs.1 hst
          (kept_of_commits (P := onward app) trivial
            (fun _ _ _ hcom _ _ => onward_of_committing hcom) hst), ?_⟩) ⟨hok₁, hnow⟩
      obtain ⟨hok, n, hn, hstatus⟩ := hs
      rcases hok.db_cases hst with hdb | ⟨j, tj, tj', hcj, hcom, hdb, -⟩
      · rw [hdb]; exact ⟨n, hn, hstatus⟩
      · rw [hdb]
        exact draining_of_committing hcom
          (fun caller he => hkeep ⟨j, tj, hcj, Or.inl ⟨caller, he⟩⟩)
          (fun caller he => hkeep ⟨j, tj, hcj, Or.inr ⟨caller, he⟩⟩) hn hstatus
    obtain ⟨-, n, hn, hstatus⟩ := hkept
    exact ⟨n, hn, fun lastSeenAt now => if_pos hstatus⟩
  · intro l s' i th id status n hst hc hreq hn
    rw [db_of_commits hc hst]
    rcases node_of_status (hok.committing hc) hreq hn with ⟨-, hview⟩ | ⟨-, hview⟩
    · exact ⟨n, hview, rfl⟩
    · exact ⟨_, hview, rfl⟩
  · intro l s' i th id n old new hst hc hreq hn hmem
    rw [db_of_commits hc hst]
    obtain ⟨lastSeenAt, hview, hwritten⟩ := node_of_seen (hok.committing hc) hreq hn
    exact ⟨_, hview, hwritten old new hmem, rfl⟩

/-- What the agent reports of one GPU. -/
def sampleReport : NodeMetricSample where
  gpuIndex := 0
  utilizationPct := 50
  memoryUsedBytes := 0
  memoryTotalBytes := 0
  temperatureC := 40
  gpuIndex_range := by decide
  utilizationPct_range := by decide
  memoryUsedBytes_nonneg := by decide
  memoryTotalBytes_nonneg := by decide
  temperatureC_range := by decide

/-- A heartbeat and a push of metrics load the node, the node is drained, and the two write it
back. -/
def staleReportsRun : List (Label Request) :=
  .spawn (.heartbeat (some sampleAgentToken) 2) :: runs 0 1 ++
    .spawn (.pushMetrics (some sampleAgentToken) 2 [sampleReport]) :: runs 1 1 ++
    .spawn (.drainNode sampleCaller 2) :: runs 2 8 ++
    .tick 5 :: runs 0 6 ++ .tick 7 :: runs 1 6

theorem draining_sticks_at_staleReportsRun :
    ∃ s, Reach (controlPlane plainApp) anyTerms (idle queuedDb 0) s ∧
      (s.db.node 2).map (fun n => (n.status, n.lastSeenAt)) = some (.draining, some 12) ∧
      (s.db.get (.nodeMetric 2 0)).isSome = true ∧ DrainSticks plainApp s := by
  obtain ⟨s, hs, hnode⟩ := Option.map_eq_some_iff.1 (show
    (runFrom (controlPlane plainApp) (idle queuedDb 0) staleReportsRun).map
      (fun s => ((s.db.node 2).map fun n => (n.status, n.lastSeenAt),
        (s.db.get (.nodeMetric 2 0)).isSome)) =
        some (some (.draining, some 12), true) by decide +kernel)
  have hr := Reach.of_runFrom hs
  exact ⟨s, hr, (Prod.mk.inj hnode).1, (Prod.mk.inj hnode).2,
    draining_sticks plainApp queuedDb 0 hr⟩

end GpuNetwork
