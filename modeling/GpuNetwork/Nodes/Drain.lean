import GpuNetwork.Jobs.StateMachine

/-!
# Drain as a barrier

A claim decides whether its node is draining by the row it has read to authenticate the
agent, and does not look at the row again.

* `nodeOpen` — the node, as committed, may be given jobs.
* `Lapsed` — what a claim or a drain has read of its node no longer holds.
* `DrainHolds` — after a drain and until the node is open again, no claim gives it a job.
-/

namespace GpuNetwork

open ReadCommitted ReadCommitted.Spec

/-- The node is there, and not draining. -/
def nodeOpen (db : Database) (nodeId : Uuid) : Bool :=
  (db.node nodeId).any fun n => decide (n.status ≠ .draining)

/-- The node a request drains. -/
def drainTarget : Request → Option Uuid
  | .drainNode _ nodeId => some nodeId
  | .forceDrainNode _ nodeId => some nodeId
  | _ => none

/-- The nodes the queries of a transaction have found, as they were. -/
def nodesRead (tx : Transaction) : List Node :=
  tx.log.flatMap fun e =>
    match e.stmt with
    | .select w => (matching e.db w).filterMap fun r => match r with | .node n => some n | _ => none
    | _ => []

/-- What a claim or a drain has made of a node it read as `n` no longer holds: the claim
goes by a node that is not open any more, the drain by one that is not draining any more. -/
def lapses (db : Database) (req : Request) (n : Node) : Bool :=
  match req with
  | .claimJob _ => decide (n.status ≠ .draining) && !nodeOpen db n.id
  | req => decide (drainTarget req = some n.id) && decide (n.status = .draining) && nodeOpen db n.id

def Lapsed (db : Database) (nodeId : Uuid) (req : Request) (tx : Transaction) : Prop :=
  ∃ n ∈ nodesRead tx, n.id = nodeId ∧ lapses db req n = true

instance (db : Database) (nodeId : Uuid) (req : Request) (tx : Transaction) :
    Decidable (Lapsed db nodeId req tx) :=
  inferInstanceAs (Decidable (∃ n ∈ nodesRead tx, n.id = nodeId ∧ lapses db req n = true))

/-- What a request has read about the node holds when it commits. -/
def NeverLapsed (nodeId : Uuid) : Terms Row Request ApiError Response :=
  OnCommits fun s _ th => ¬ Lapsed s.db nodeId th.req th.ses.tx

/-! ## Steps that matter -/

/-- A drain of the node commits. -/
def DrainCommits (nodeId : Uuid) (s : System) (l : Label Request) : Prop :=
  ∃ i th, Commits s l i th ∧ drainTarget th.req = some nodeId

/-- An undrain of the node commits, or a new node under its identifier. -/
def Reopens (nodeId : Uuid) (s : System) (l : Label Request) : Prop :=
  ∃ i th, Commits s l i th ∧ ((∃ caller, th.req = .undrainNode caller nodeId) ∨
    ∃ n : Node, n.id = nodeId ∧ .insert (.node n) ∈ th.ses.tx.writes)

/-- The write gives a job to the node. -/
def assigns (nodeId : Uuid) : Write Row Key → Bool
  | .update (.job _) (.job new) => decide (new.assignedNodeId = some nodeId)
  | _ => false

/-- The transaction of a claim, with a job for the node. -/
def claimsFor (nodeId : Uuid) : Request → Transaction → Bool
  | .claimJob _, tx => tx.writes.any (assigns nodeId)
  | _, _ => false

/-- A claim commits a job for the node. -/
def ClaimsFor (nodeId : Uuid) (s : System) (l : Label Request) : Prop :=
  ∃ i th, Commits s l i th ∧ claimsFor nodeId th.req th.ses.tx = true

variable {app : App} {rely : Rely} {refusals : Prop} {db : Database} {req : Request}
  {tx : Transaction}

theorem drainTarget_of_drains {nodeId : Uuid} {event : Event} (h : Drains req nodeId event) :
    drainTarget req = some nodeId := by
  cases h <;> rfl

theorem mem_nodesRead {w : Cond} {n : Node} (h : tx.Read w (.node n)) : n ∈ nodesRead tx := by
  obtain ⟨e, he, hstmt, hget, hh⟩ := h
  refine List.mem_flatMap.2 ⟨e, he, ?_⟩
  rw [hstmt]
  exact List.mem_filterMap.2 ⟨.node n, mem_matching.2 ⟨Db.mem_of_get hget, hh⟩, rfl⟩

/-- What a drain commits. -/
theorem shape_of_drain {nodeId : Uuid} (h : Shape app req tx)
    (hd : drainTarget req = some nodeId) :
    ∃ n : Node, tx.Read (.byKey (.node nodeId)) (.node n) ∧
      ((n.status = .draining ∧ tx.writes = []) ∨ (n.status ≠ .draining ∧ ∃ a, tx.writes =
        [.update (.node n) (.node { n with status := .draining }), .insert (.auditLog a)])) := by
  cases h with
  | drain hreq hread hstatus hfound hw hlogs =>
    rw [drainTarget_of_drains hreq, Option.some.injEq] at hd
    subst hd
    exact ⟨_, hread, Or.inr ⟨hstatus, _, hw⟩⟩
  | drained hreq hread hstatus hw =>
    rw [drainTarget_of_drains hreq, Option.some.injEq] at hd
    subst hd
    exact ⟨_, hread, Or.inl ⟨hstatus, hw⟩⟩
  | aside ha => cases ha <;> cases hd
  | sets hs => cases hs <;> cases hd
  | cancelQueued hc => cases hc <;> cases hd
  | requestCancel hc => cases hc <;> cases hd
  | cancelAgain hc => cases hc <;> cases hd
  | _ => cases hd

/-- **A drain leaves its node shut.** -/
theorem shut_of_drain (h : (platform app rely refusals).Committing db req tx)
    {nodeId : Uuid} (hl : ¬ Lapsed db nodeId req tx) (hd : drainTarget req = some nodeId) :
    nodeOpen (tx.view db) nodeId = false := by
  obtain ⟨n, hread, ⟨hstatus, hw⟩ | ⟨hstatus, a, hw⟩⟩ := shape_of_drain h.shape hd
  · -- it found the node draining, and it still is
    rw [Tx.view_of_no_writes hw]
    have hid := id_of_read_node hread
    cases hopen : nodeOpen db nodeId with
    | false => rfl
    | true =>
      refine absurd ⟨n, mem_nodesRead hread, hid, ?_⟩ hl
      unfold lapses
      split
      · cases hd
      · simp [hd, hid, hstatus, hopen]
  · have hid := id_of_read_node hread
    rw [nodeOpen, node_view_update hw (by simp [Write.target, Row.key]) nodeId, if_pos hid]
    cases db.node nodeId with
    | none => rfl
    | some cur => simp [Node.merge, col_of_ne (Ne.symm hstatus)]

/-- A commit that does not open a node leaves it shut. -/
theorem shut_of_committing (h : (platform app rely refusals).Committing db req tx)
    {nodeId : Uuid} (hshut : nodeOpen db nodeId = false)
    (hundrain : ∀ caller, req ≠ .undrainNode caller nodeId)
    (hinsert : ∀ n : Node, n.id = nodeId → .insert (.node n) ∉ tx.writes) :
    nodeOpen (tx.view db) nodeId = false := by
  have hstep := node_step h nodeId
  unfold nodeOpen at hshut ⊢
  generalize db.node nodeId = o at hstep hshut
  generalize (tx.view db).node nodeId = o' at hstep
  cases hstep with
  | same => exact hshut
  | registered hreq hid hstatus hgpu hw => exact absurd hw (hinsert _ hid)
  | seen => exact hshut
  | drained hd hread hstatus => rfl
  | undrained hreq hread hstatus => exact absurd hreq (hundrain _)
  | deleted hreq hw => rfl

/-- A claim gives a job to no other node than one that is open. -/
theorem open_of_claim {nodeId : Uuid} (h : Shape app req tx)
    (hl : ¬ Lapsed db nodeId req tx) (hclaim : claimsFor nodeId req tx = true) :
    nodeOpen db nodeId = true := by
  unfold claimsFor at hclaim
  split at hclaim
  · obtain ⟨n, j, now, a, hn, hdrain, -, -, -, hw⟩ := shape_of_claimJob h
    rw [hw] at hclaim
    simp only [List.any_cons, assigns, Job.claimedBy, Option.some.injEq, List.any_nil,
      Bool.or_false, decide_eq_true_eq] at hclaim
    subst hclaim
    obtain ⟨token, hash, -, -, -, hread⟩ := hn.bearer
    cases hopen : nodeOpen db n.id with
    | true => rfl
    | false =>
      exact absurd ⟨n, mem_nodesRead hread, rfl, by simp [lapses, hdrain, hopen]⟩ hl
  · cases hclaim

/-! ## Runs -/

/-- From a drain of the node to the next undrain no claim gives it a job. -/
def DrainHolds (app : App) (T : Terms Row Request ApiError Response) (s₀ : System)
    (nodeId : Uuid) : Prop :=
  ∀ (s₁ s₂ s₃ s₄ : System) (l m : Label Request), Reach (controlPlane app) T s₀ s₁ →
    step (controlPlane app) s₁ l = some s₂ → T s₁ l s₂ → DrainCommits nodeId s₁ l →
    Reach (controlPlane app) (fun s l s' => T s l s' ∧ ¬ Reopens nodeId s l) s₂ s₃ →
    step (controlPlane app) s₃ m = some s₄ → T s₃ m s₄ → ¬ ClaimsFor nodeId s₃ m

/-- **Drain is a barrier**, in every run in which what the claims and drains have read of
the node holds when they commit. -/
theorem drain_is_a_barrier (app : App) (db : Database) (clock : Time) (nodeId : Uuid) :
    DrainHolds app (NeverLapsed nodeId) (idle db clock) nodeId := by
  intro s₁ s₂ s₃ s₄ l m hr hl ht hd hr' hm ht' hclaims
  obtain ⟨i, th, hc, htarget⟩ := hd
  have hok : (onward app).Ok s₁ := onward_ok rfl hr
  have hok₂ : (onward app).Ok s₂ := onward_ok rfl (hr.tail hl ht)
  have hshut : nodeOpen s₂.db nodeId = false := by
    rw [db_of_commits hc hl]
    exact shut_of_drain (hok.committing hc) (ht i th hc) htarget
  -- the node stays shut up to the commit of the claim
  have hkept : (onward app).Ok s₃ ∧ nodeOpen s₃.db nodeId = false := by
    refine hr'.invariant (fun s => (onward app).Ok s ∧ nodeOpen s.db nodeId = false)
      (fun s l s' hs hst hkeep => ⟨ok_step (platform_valid app _ _) hs.1 hst
        (kept_of_commits (P := onward app) trivial
          (fun _ _ _ hcom _ _ => onward_of_committing hcom) hst), ?_⟩) ⟨hok₂, hshut⟩
    rcases hs.1.db_cases hst with he | ⟨j, tj, tj', hcj, hcom, hdb, -⟩
    · rw [he]; exact hs.2
    · rw [hdb]
      exact shut_of_committing hcom hs.2
        (fun caller he => hkeep.2 ⟨j, tj, hcj, Or.inl ⟨caller, he⟩⟩)
        (fun n hn hw => hkeep.2 ⟨j, tj, hcj, Or.inr ⟨n, hn, hw⟩⟩)
  obtain ⟨j, tj, hcj, hclaim⟩ := hclaims
  rw [open_of_claim (hkept.1.committing hcj).shape (ht' j tj hcj) hclaim] at hkept
  cases hkept.2

/-- The token of a second node of the owner. -/
def spareAgentToken : Str := "gpuagent_spare".toList

/-- An account with a job in the queue and two nodes. -/
def spareNodeDb : Database :=
  queuedDb.insert (.node { sampleNode with
    id := 5, name := "spare".toList, agentTokenHash := some spareAgentToken
    agentTokenPrefix := some (lookupPrefix spareAgentToken) })

/-- The owner drains the first node, up to the commit. -/
def shutRun : List (Label Request) := .spawn (.drainNode sampleCaller 2) :: runs 0 7

/-- Both nodes ask for a job, and the second is about to get it. -/
def lateClaims : List (Label Request) :=
  runs 0 3 ++ .spawn (.claimJob (some sampleAgentToken)) :: runs 1 2 ++
    .spawn (.claimJob (some spareAgentToken)) :: runs 2 9

/-- What has been read of the node still holds, as a check. -/
def keepsNode (nodeId : Uuid) (s : System) (_ : Nat) (th : Pending) : Bool :=
  decide (¬ Lapsed s.db nodeId th.req th.ses.tx)

theorem drain_is_a_barrier_at_lateClaims :
    ∃ s₁ s₂ s₃ s₄ l m, Reach (controlPlane plainApp) (NeverLapsed 2) (idle spareNodeDb 0) s₁ ∧
      step (controlPlane plainApp) s₁ l = some s₂ ∧ NeverLapsed 2 s₁ l s₂ ∧
      DrainCommits 2 s₁ l ∧
      Reach (controlPlane plainApp) (fun s l s' => NeverLapsed 2 s l s' ∧ ¬ Reopens 2 s l) s₂ s₃ ∧
      step (controlPlane plainApp) s₃ m = some s₄ ∧ NeverLapsed 2 s₃ m s₄ ∧
      ClaimsFor 5 s₃ m ∧ ¬ ClaimsFor 2 s₃ m := by
  obtain ⟨s₁, h₁, hrest⟩ := Option.bind_eq_some_iff.1 (show
    (runChecked (controlPlane plainApp) (keepsNode 2) (idle spareNodeDb 0) shutRun).bind
      (fun s₁ => (s₁.committing (.run 0 0)).bind fun x =>
        (step (controlPlane plainApp) s₁ (.run 0 0)).bind fun s₂ =>
          (runChecked (controlPlane plainApp) (fun _ _ _ => decide False) s₂ lateClaims).bind
            fun s₃ => (s₃.committing (.run 2 0)).bind fun y =>
              (step (controlPlane plainApp) s₃ (.run 2 0)).map fun _ =>
                (drainTarget x.2.req, passes (keepsNode 2) s₁ (.run 0 0),
                  claimsFor 5 y.2.req y.2.ses.tx, passes (keepsNode 2) s₃ (.run 2 0))) =
      some (some 2, true, true, true) by decide +kernel)
  obtain ⟨⟨i, th⟩, hc, hrest⟩ := Option.bind_eq_some_iff.1 hrest
  obtain ⟨s₂, h₂, hrest⟩ := Option.bind_eq_some_iff.1 hrest
  obtain ⟨s₃, h₃, hrest⟩ := Option.bind_eq_some_iff.1 hrest
  obtain ⟨⟨j, tj⟩, hcj, hrest⟩ := Option.bind_eq_some_iff.1 hrest
  obtain ⟨s₄, h₄, hfacts⟩ := Option.map_eq_some_iff.1 hrest
  simp only [Prod.mk.injEq] at hfacts
  obtain ⟨htarget, hkept, hclaims, hkept'⟩ := hfacts
  have hr₁ : Reach (controlPlane plainApp) (NeverLapsed 2) (idle spareNodeDb 0) s₁ :=
    (Reach.of_runChecked h₁).mono fun _ _ _ ht => ht.1
  -- nothing is committed between the drain and the claim
  have hr₃ : Reach (controlPlane plainApp)
      (fun s l s' => NeverLapsed 2 s l s' ∧ ¬ Reopens 2 s l) s₂ s₃ :=
    (Reach.of_runChecked (C := fun _ _ _ => False) h₃).mono fun s l s' hnone =>
      ⟨fun k tk hck => (hnone.1 k tk hck).elim, fun ⟨k, tk, hck, _⟩ => hnone.1 k tk hck⟩
  have hd : DrainCommits 2 s₁ (.run 0 0) := ⟨i, th, committing_eq_some_iff.1 hc, htarget⟩
  have hkeeps : NeverLapsed 2 s₁ (.run 0 0) s₂ := fun k tk hck =>
    of_decide_eq_true (passes_sound hkept hck)
  have hkeeps' : NeverLapsed 2 s₃ (.run 2 0) s₄ := fun k tk hck =>
    of_decide_eq_true (passes_sound hkept' hck)
  exact ⟨s₁, s₂, s₃, s₄, _, _, hr₁, h₂, hkeeps, hd, hr₃, h₄, hkeeps',
    ⟨j, tj, committing_eq_some_iff.1 hcj, hclaims⟩,
    drain_is_a_barrier plainApp spareNodeDb 0 2 s₁ s₂ s₃ s₄ _ _ hr₁ h₂ hkeeps hd hr₃ h₄ hkeeps'⟩

/-- A claim authenticates; the node is drained up to the commit. -/
def drainingRun : List (Label Request) :=
  .spawn (.claimJob (some sampleAgentToken)) :: runs 0 1 ++
    .spawn (.drainNode sampleCaller 2) :: runs 1 7

/-- **A job can slip onto a draining node.** -/
theorem job_given_to_draining_node : ¬ DrainHolds plainApp anyTerms (idle queuedDb 0) 2 := by
  intro h
  obtain ⟨s₁, h₁, hrest⟩ := Option.bind_eq_some_iff.1 (show
    (runFrom (controlPlane plainApp) (idle queuedDb 0) drainingRun).bind (fun s₁ =>
      (s₁.committing (.run 1 1)).bind fun x => (step (controlPlane plainApp) s₁ (.run 1 1)).bind
        fun s₂ => (runChecked (controlPlane plainApp) (fun _ _ _ => decide False) s₂
          (runs 0 8)).bind fun s₃ => (s₃.committing (.run 0 0)).bind fun y =>
            (step (controlPlane plainApp) s₃ (.run 0 0)).map fun _ =>
              (drainTarget x.2.req, claimsFor 2 y.2.req y.2.ses.tx)) = some (some 2, true) by
    decide +kernel)
  obtain ⟨⟨i, th⟩, hc, hrest⟩ := Option.bind_eq_some_iff.1 hrest
  obtain ⟨s₂, h₂, hrest⟩ := Option.bind_eq_some_iff.1 hrest
  obtain ⟨s₃, h₃, hrest⟩ := Option.bind_eq_some_iff.1 hrest
  obtain ⟨⟨j, tj⟩, hcj, hrest⟩ := Option.bind_eq_some_iff.1 hrest
  obtain ⟨s₄, h₄, hboth⟩ := Option.map_eq_some_iff.1 hrest
  obtain ⟨htarget, hclaims⟩ := Prod.mk.inj hboth
  -- nothing is committed between the drain and the claim
  have hquiet : Reach (controlPlane plainApp)
      (fun s l s' => anyTerms s l s' ∧ ¬ Reopens 2 s l) s₂ s₃ :=
    (Reach.of_runChecked (C := fun _ _ _ => False) h₃).mono
      fun s l s' hnone => ⟨trivial, fun ⟨k, tk, hck, _⟩ => hnone.1 k tk hck⟩
  exact h s₁ s₂ s₃ s₄ _ _ (Reach.of_runFrom h₁) h₂ trivial
    ⟨i, th, committing_eq_some_iff.1 hc, htarget⟩ hquiet h₄ trivial
    ⟨j, tj, committing_eq_some_iff.1 hcj, hclaims⟩

end GpuNetwork
