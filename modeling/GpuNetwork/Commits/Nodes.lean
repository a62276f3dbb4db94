import GpuNetwork.Commits.Jobs

/-!
# The node handlers keep to their shape

* `safe_createClaimToken`, `safe_registerNode`, `safe_heartbeat`, `safe_pushMetrics`,
  `safe_drainNode`, `safe_undrainNode`, `safe_deleteNode`, `safe_forceDrainNode`.
-/

namespace GpuNetwork

open ReadCommitted ReadCommitted.Spec

variable {app : App} {rely : Rely} {refusals : Prop}

/-- A token is drawn and hashed without touching the store. -/
theorem wp_generateToken {P : Spec Row Key Cond Request ApiError Response} {req : Request}
    {ses : Conn} {marker : Str} {Q : Str × Str × Str → Conn → Prop}
    (hpost : ∀ salt bytes, app.hashpw salt (marker ++ app.tokenUrlsafe bytes) = none →
      P.post req (.error .bcryptRaised) ses.past)
    (h : ∀ t, Q t ses) : P.Wp req (generateToken app marker) ses Q := by
  refine wp_bind (wp_random fun bytes => wp_ret.2 (wp_bind (wp_random fun salt => wp_ret.2 ?_)))
  exact wp_bind (wp_orRaise (hpost salt bytes) fun _ _ => h _)

theorem safe_createClaimToken (caller : Caller) :
    (platform app rely refusals).Safe (.createClaimToken caller) (createClaimToken app caller)
      {} := by
  refine wp_bind (wp_currentUser rfl (fun e => trivial) fun s₁ u h₁ hu => ?_)
  have hw₁ : s₁.tx.writes = [] := h₁.writes
  split
  · refine wp_bind (wp_generateToken (fun _ _ _ => trivial) fun t => wp_bind (wp_now fun now =>
      wp_ret.2 (wp_bind (wp_bind (wp_random fun id => wp_ret.2 (wp_bind (wp_txTime fun ct =>
      wp_ret.2 (wp_bind (wp_insert fun s₂ h₂ hf => wp_ret.2 ?_)))))))))
    have hfresh := hf (target_ne_of_empty hw₁ _)
    have hw₂ : s₂.tx.writes = _ := h₂.writes
    rw [hw₁, List.nil_append] at hw₂
    refine wp_bind (wp_createAudit ?_ fun s₃ a h₃ ha => ?_)
    · simp [hw₂, Write.target, Row.key]
    have hw₃ : s₃.tx.writes = _ := h₃.writes
    rw [hw₂] at hw₃
    refine wp_bind (wp_commitTx ?_ ?_)
    · exact Shape.aside (Aside.createClaimToken hw₃ (hfresh.mono h₃.log) ha.fresh ha.event)
    · refine wp_bind (wp_refresh rfl trivial fun s₄ r h₄ hk => ?_)
      obtain ⟨c, rfl, -⟩ := Row.eq_claimToken_of_key hk
      trivial
  · trivial

/-! ## Registration -/

theorem wp_getClaimTokenByPrefix {P : Spec Row Key Cond Request ApiError Response}
    {req : Request} {ses : Conn} {Q : Option ClaimToken → Conn → Prop} {pre : Str}
    (hw : ses.tx.writes = [])
    (hsome : ∀ ses' c, ses.Adds ses' [] → ses'.tx.Read (.claimTokenByPrefix pre) (.claimToken c) →
      Q (some c) ses')
    (hnone : ∀ ses', ses.Adds ses' [] → Q none ses') :
    P.Wp req (getClaimTokenByPrefix pre) ses Q := by
  refine wp_select hw (fun s₁ r h₁ hr hh => ?_) (fun s₁ h₁ _ => hnone s₁ h₁)
  cases r with
  | claimToken c => exact hsome s₁ c h₁ hr
  | _ => cases hh

/-- A node is given a name without touching the store. -/
theorem wp_nodeName {P : Spec Row Key Cond Request ApiError Response} {req : Request}
    {ses : Conn} {suggested : Option Str} {Q : Str → Conn → Prop} (h : ∀ name, Q name ses) :
    P.Wp req (nodeName suggested) ses Q := by
  unfold nodeName
  split
  · exact h _
  · exact wp_bind (wp_random fun id => wp_ret.2 (h _))

/-- A claim token that passes is the one that was found, and is unused. -/
theorem wp_checkClaimToken {P : Spec Row Key Cond Request ApiError Response} {req : Request}
    {token : Str} {ses : Conn} {found : Option ClaimToken} {Q : ClaimToken → Conn → Prop}
    (hinvalid : ∀ fault, P.post req (.error (.claimTokenInvalid fault)) ses.past)
    (hraised : (∃ hash, app.checkpw token hash = none) →
      P.post req (.error .bcryptRaised) ses.past)
    (h : ∀ c, found = some c → app.checkpw token c.tokenHash = some true →
      c.consumedAt = none → Q c ses) :
    P.Wp req (checkClaimToken app token found) ses Q := by
  cases found with
  | none => exact hinvalid _
  | some c =>
    refine wp_bind (wp_orRaise (fun hn => ?_) fun valid hvalid => ?_)
    · exact hraised ⟨_, hn⟩
    · cases valid with
      | false => exact hinvalid _
      | true =>
        rw [if_pos rfl]
        split
        · exact hinvalid _
        · rename_i hcons
          refine wp_bind (wp_now fun now => wp_ret.2 ?_)
          split
          · exact hinvalid _
          · exact h c rfl hvalid (Option.not_isSome_iff_eq_none.1 hcons)

/-- A claim token that was read does not go away where none does. -/
theorem claimToken_stays {req : Request} {tx : Transaction} {db : Database} {c : ClaimToken}
    {w : Cond} (hstay : TokensStay rely) (hs : (platform app rely refusals).Since req tx db)
    (hr : tx.Read w (.claimToken c)) : (db.get (.claimToken c.id)).isSome := by
  obtain ⟨e, he, -, hg, -⟩ := hr
  have hsome : (e.db.get (.claimToken c.id)).isSome := by
    have hg' : e.db.get (.claimToken c.id) = _ := hg
    rw [hg']
    rfl
  exact hs.keeps he (fun tx' a b _ hrel hI => hstay _ _ _ _ hrel _ hI) hsome

theorem safe_registerNode (client : Client) (p : RegisterNodeRequest) :
    (platform app rely refusals).Safe (.registerNode client p) (registerNode app client p)
      {} := by
  have hinvalid : ∀ {past} fault, (platform app rely refusals).post (.registerNode client p)
      (.error (.claimTokenInvalid fault)) past := fun fault => Or.inr (Or.inl ⟨fault, rfl⟩)
  have hraised : ∀ {past}, (∃ hash, app.checkpw p.claimToken hash = none) →
      (platform app rely refusals).post (.registerNode client p) (.error .bcryptRaised) past :=
    fun hn => Or.inr (Or.inr (Or.inr (Or.inr ⟨rfl, Or.inl hn⟩)))
  -- everything after the claim token has been read
  refine wp_bind (wp_getClaimTokenByPrefix rfl (fun s₁ c h₁ hc => ?_) (fun s₁ h₁ => ?_))
  · refine wp_bind (wp_checkClaimToken hinvalid hraised fun c' hc' hvalid hunused => ?_)
    cases hc'
    have hw₁ : s₁.tx.writes = [] := h₁.writes
    refine wp_bind (wp_generateToken (fun salt bytes hn => ?_) fun t => wp_bind (wp_nodeName
      fun name => wp_bind (wp_now fun seen => wp_ret.2 (wp_bind (wp_bind (wp_random fun id =>
      wp_ret.2 (wp_bind (wp_txTime fun ct => wp_ret.2 (wp_bind (wp_insert
      fun s₂ h₂ hf => wp_ret.2 ?_))))))))))
    · exact Or.inr (Or.inr (Or.inr (Or.inr ⟨rfl, Or.inr ⟨salt, bytes, hn⟩⟩)))
    have hfresh := hf (target_ne_of_empty hw₁ _)
    have hw₂ : s₂.tx.writes = _ := h₂.writes
    rw [hw₁, List.nil_append] at hw₂
    have hne : ∀ now, Row.claimToken { c with consumedAt := some now } ≠ .claimToken c := by
      intro now he
      have hcons := congrArg ClaimToken.consumedAt (Row.claimToken.inj he)
      rw [hunused] at hcons
      cases hcons
    refine wp_bind (wp_bind (wp_now fun now => wp_ret.2 (wp_flush_of_ne (hne now) ?_ ?_
      fun s₃ h₃ hfound _ => ?_)))
    · simp [hw₂, Write.target, Row.key]
    · -- a token row that has gone away since it was read
      intro db hsince hnone
      refine Or.inr (Or.inr (Or.inr (Or.inl ⟨rfl, fun hstay => ?_⟩)))
      have hsome := claimToken_stays hstay hsince (hc.mono h₂.log)
      rw [show Key.claimToken c.id = (Row.claimToken c).key from rfl, hnone] at hsome
      cases hsome
    have hw₃ : s₃.tx.writes = _ := h₃.writes
    rw [hw₂] at hw₃
    refine wp_bind (wp_createAudit ?_ fun s₄ a h₄ ha => ?_)
    · simp [hw₃, Write.target, Row.key]
    have hw₄ : s₄.tx.writes = _ := h₄.writes
    rw [hw₃] at hw₄
    have hlog : ∀ e ∈ s₂.tx.log, e ∈ s₄.tx.log := fun e he => h₄.log e (h₃.log e he)
    have hpast : s₄.past = [] := by rw [h₄.past, h₃.past, h₂.past, h₁.past]
    refine wp_bind (wp_commitTx ?_ ?_)
    · exact Shape.registerNode (hc.mono fun e he => hlog e (h₂.log e he)) hvalid hunused rfl rfl
        rfl (hfresh.mono hlog) (hfound.mono h₄.log) hw₄ ha
    · refine wp_bind (wp_refreshNode rfl ?_ fun s₅ n h₅ _ => wp_ret.2 ⟨s₄.tx, ?_⟩)
      · rw [past_committed hpast]
        exact Or.inl (by simp)
      · rw [h₅.past, past_committed hpast]
  · exact wp_bind (wp_checkClaimToken hinvalid hraised fun c hc => by cases hc)

/-! ## Agents -/

theorem safe_heartbeat (bearer : Option Str) (nodeId : Uuid) :
    (platform app rely refusals).Safe (.heartbeat bearer nodeId) (heartbeat app bearer nodeId)
      {} := by
  refine wp_bind (wp_currentNode rfl (fun e => trivial) fun s₁ n h₁ hn => ?_)
  have hw₁ : s₁.tx.writes = [] := h₁.writes
  split
  · trivial
  rename_i hid
  refine wp_bind (wp_bind (wp_now fun now => wp_ret.2 (wp_flush (target_ne_of_empty hw₁ _)
    (fun _ _ _ => trivial) fun s₂ h₂ _ _ => ?_)))
  have hw₂ : s₂.tx.writes = _ := h₂.writes
  rw [hw₁, List.nil_append] at hw₂
  refine wp_bind (wp_commitTx (Shape.heartbeat (hn.mono h₂.log) (not_not.1 hid) hw₂) ?_)
  refine wp_bind (wp_refreshNode rfl trivial fun s₃ n' h₃ _ => ?_)
  refine wp_bind (wp_getRunningForNode h₃.writes (fun s₄ j h₄ => ?_) fun s₄ h₄ _ => ?_)
  · exact wp_bind (wp_now fun t => trivial)
  · exact wp_bind (wp_now fun t => trivial)

/-- The upserts of a push write metric rows of the node. -/
theorem target_of_mem_upserts {nodeId : Uuid} {now : Time} {samples : List NodeMetricSample}
    {view : Database} {w : Write Row Key}
    (h : w ∈ (samples.map fun s => Row.nodeMetric
      { nodeId, gpuIndex := s.gpuIndex, utilizationPct := s.utilizationPct,
        memoryUsedBytes := s.memoryUsedBytes, memoryTotalBytes := s.memoryTotalBytes,
        temperatureC := s.temperatureC, recordedAt := now }).map (upsertWrite view)) :
    ∃ g, w.target = .nodeMetric nodeId g := by
  obtain ⟨r, hr, rfl⟩ := List.mem_map.1 h
  obtain ⟨s, -, rfl⟩ := List.mem_map.1 hr
  exact ⟨s.gpuIndex, target_upsertWrite _ _⟩

theorem safe_pushMetrics (bearer : Option Str) (nodeId : Uuid)
    (samples : List NodeMetricSample) :
    (platform app rely refusals).Safe (.pushMetrics bearer nodeId samples)
      (pushMetrics app bearer nodeId samples) {} := by
  refine wp_bind (wp_currentNode rfl (fun e => trivial) fun s₁ n h₁ hn => ?_)
  have hw₁ : s₁.tx.writes = [] := h₁.writes
  split
  · trivial
  rename_i hid
  -- after the upserts, if there are any
  have hrest : ∀ (s₂ : Conn) (ups : List (Write Row Key)), s₁.Adds s₂ ups →
      (∀ w ∈ ups, ∃ g, w.target = .nodeMetric n.id g) →
      (platform app rely refusals).Wp (.pushMetrics bearer nodeId samples) (do
        updateLastSeen n
        commit
        pure Response.noContent) s₂ fun a ses' =>
          (platform app rely refusals).post (.pushMetrics bearer nodeId samples) (.ok a)
            ses'.past := by
    intro s₂ ups h₂ hups
    have hw₂ : s₂.tx.writes = ups := by rw [h₂.writes, hw₁, List.nil_append]
    refine wp_bind (wp_bind (wp_now fun now => wp_ret.2 (wp_flush ?_ (fun _ _ _ => trivial)
      fun s₃ h₃ _ _ => ?_)))
    · rw [hw₂]
      intro w hw
      obtain ⟨g, hg⟩ := hups w hw
      rw [hg]
      simp [Row.key]
    · have hw₃ : s₃.tx.writes = _ := h₃.writes
      rw [hw₂] at hw₃
      exact wp_bind (wp_commitTx (Shape.pushMetrics
        (hn.mono fun e he => h₃.log e (h₂.log e he)) (not_not.1 hid) hups hw₃) trivial)
  refine wp_bind ?_
  unfold upsertSamples
  split
  · exact hrest s₁ [] Session.Adds.refl (by simp)
  · refine wp_bind (wp_now fun now => wp_ret.2 (wp_upsert fun s₂ view h₂ => ?_))
    exact hrest s₂ _ h₂ fun w hw => target_of_mem_upserts hw

/-! ## Draining -/

theorem wp_getOwnedNode {P : Spec Row Key Cond Request ApiError Response} {req : Request}
    {ses : Conn} {owner : User} {id : Uuid} {Q : Node → Conn → Prop} (hw : ses.tx.writes = [])
    (hpost : ∀ e, P.post req (.error e) ses.past)
    (h : ∀ ses' n, ses.Adds ses' [] → ses'.tx.Read (.byKey (.node id)) (.node n) →
      n.id = id → Q n ses') : P.Wp req (getOwnedNode owner id) ses Q := by
  have hstop : ∀ {ses' : Conn} {e : ApiError}, ses.Adds ses' [] →
      P.post req (.error e) ses'.past := fun ha => by rw [ha.past]; exact hpost _
  refine wp_bind (wp_getNodeById hw (fun s₁ n h₁ hn hid => ?_) (fun s₁ h₁ => hstop h₁))
  dsimp only
  split
  · exact hstop h₁
  · exact h s₁ n h₁ hn hid

/-- The answer about a node is read from the store. -/
theorem wp_nodeDetail {P : Spec Row Key Cond Request ApiError Response} {req : Request}
    {ses : Conn} {n : Node} {Q : Response → Conn → Prop} (hw : ses.tx.writes = [])
    (h : ∀ ses' r, ses.Adds ses' [] → Q r ses') : P.Wp req (nodeDetail n) ses Q := by
  refine wp_bind (wp_getRunningForNode hw (fun s₁ j h₁ => ?_) fun s₁ h₁ _ => ?_)
  · exact wp_bind (wp_now fun t => wp_ret.2 (h s₁ _ h₁))
  · exact wp_bind (wp_now fun t => wp_ret.2 (h s₁ _ h₁))

theorem Node.ne_of_status {n : Node} {status : NodeStatus} (h : status ≠ n.status) :
    Row.node { n with status } ≠ .node n := by
  intro he
  exact h (congrArg Node.status (Row.node.inj he))

/-- The requests that drain a node accept any error, and an answer that follows one
commit. -/
theorem post_of_drains {req : Request} {id : Uuid} {event : Event} (h : Drains req id event)
    (past : List Transaction) :
    (∀ e, (platform app rely refusals).post req (.error e) past) ∧
      ∀ r tx, past = [tx] → (platform app rely refusals).post req (.ok r) past := by
  cases h with
  | drainNode => exact ⟨fun _ => trivial, fun _ tx hp => ⟨tx, hp⟩⟩
  | forceDrainNode => exact ⟨fun _ => trivial, fun _ tx hp => ⟨tx, hp⟩⟩

/-- A drain up to its commit: it writes the status, or finds the node draining. -/
theorem wp_drain {req : Request} {id : Uuid} {event : Event} (hreq : Drains req id event)
    {ses : Conn} {n : Node} {u : User} {target : Option Uuid} {client : Client}
    (hw : ses.tx.writes = []) (hpast : ses.past = [])
    (hn : ses.tx.Read (.byKey (.node id)) (.node n)) :
    (platform app rely refusals).Wp req (do
      drain n event u target client
      commit
      let node ← refreshNode n.id
      nodeDetail node) ses fun a ses' =>
        (platform app rely refusals).post req (.ok a) ses'.past := by
  have herr : ∀ {past e}, (platform app rely refusals).post req (.error e) past :=
    fun {past e} => (post_of_drains hreq past).1 e
  have htail : ∀ s : Conn, s.past = [] → Shape app req s.tx →
      (platform app rely refusals).Wp req (do
        commit
        let node ← refreshNode n.id
        nodeDetail node) s fun a ses' =>
          (platform app rely refusals).post req (.ok a) ses'.past := by
    intro s hp hshape
    refine wp_bind (wp_commitTx hshape (wp_bind (wp_refreshNode rfl herr fun s₁ n' h₁ _ => ?_)))
    refine wp_nodeDetail h₁.writes fun s₂ r h₂ => (post_of_drains hreq _).2 r s.tx ?_
    rw [h₂.past, h₁.past, past_committed hp]
  unfold drain
  by_cases hs : n.status = .draining
  · rw [if_neg (not_not.2 hs)]
    exact htail ses hpast (Shape.drained hreq hn hs hw)
  · rw [if_pos hs]
    refine wp_bind (wp_bind (wp_flush_of_ne (Node.ne_of_status (Ne.symm hs))
      (target_ne_of_empty hw _) (fun _ _ _ => herr) fun s₁ h₁ hf _ => ?_))
    have hw₁ : s₁.tx.writes = _ := h₁.writes
    rw [hw, List.nil_append] at hw₁
    refine wp_createAudit ?_ fun s₂ a h₂ ha => ?_
    · simp [hw₁, Write.target, Row.key]
    have hw₂ : s₂.tx.writes = _ := h₂.writes
    rw [hw₁] at hw₂
    refine htail s₂ (by rw [h₂.past, h₁.past, hpast]) ?_
    exact Shape.drain hreq (hn.mono fun e he => h₂.log e (h₁.log e he)) hs (hf.mono h₂.log) hw₂ ha

theorem safe_drainNode (caller : Caller) (id : Uuid) :
    (platform app rely refusals).Safe (.drainNode caller id) (drainNode app caller id) {} := by
  refine wp_bind (wp_currentUser rfl (fun e => trivial) fun s₁ u h₁ _ => ?_)
  have hw₁ : s₁.tx.writes = [] := h₁.writes
  refine wp_bind (wp_getOwnedNode hw₁ (fun e => trivial) fun s₂ n h₂ hn _ => ?_)
  have hw₂ : s₂.tx.writes = [] := by rw [h₂.writes, hw₁]; rfl
  exact wp_drain .drainNode hw₂ (h₂.past.trans h₁.past) hn

theorem safe_forceDrainNode (caller : Caller) (id : Uuid) :
    (platform app rely refusals).Safe (.forceDrainNode caller id) (forceDrainNode app caller id)
      {} := by
  refine wp_bind (wp_requireAdmin rfl (fun e => trivial) fun s₁ u h₁ _ => ?_)
  have hw₁ : s₁.tx.writes = [] := h₁.writes
  refine wp_bind (wp_getNodeById hw₁ (fun s₂ n h₂ hn _ => ?_) (fun s₂ h₂ => trivial))
  have hw₂ : s₂.tx.writes = [] := by rw [h₂.writes, hw₁]; rfl
  exact wp_drain .forceDrainNode hw₂ (h₂.past.trans h₁.past) hn

theorem safe_undrainNode (caller : Caller) (id : Uuid) :
    (platform app rely refusals).Safe (.undrainNode caller id) (undrainNode app caller id)
      {} := by
  refine wp_bind (wp_currentUser rfl (fun e => trivial) fun s₁ u h₁ _ => ?_)
  have hw₁ : s₁.tx.writes = [] := h₁.writes
  refine wp_bind (wp_getOwnedNode hw₁ (fun e => trivial) fun s₂ n h₂ hn _ => ?_)
  have hw₂ : s₂.tx.writes = [] := by rw [h₂.writes, hw₁]; rfl
  split
  · trivial
  rename_i hs
  have hdrain := not_not.1 hs
  refine wp_bind (wp_flush_of_ne (Node.ne_of_status (by rw [hdrain]; simp))
    (target_ne_of_empty hw₂ _) (fun _ _ _ => trivial) fun s₃ h₃ hf _ => ?_)
  have hw₃ : s₃.tx.writes = _ := h₃.writes
  rw [hw₂, List.nil_append] at hw₃
  refine wp_bind (wp_createAudit ?_ fun s₄ a h₄ ha => ?_)
  · simp [hw₃, Write.target, Row.key]
  have hw₄ : s₄.tx.writes = _ := h₄.writes
  rw [hw₃] at hw₄
  refine wp_bind (wp_commitTx ?_ (wp_bind (wp_refreshNode rfl trivial fun s₅ n' h₅ _ => ?_)))
  · exact Shape.undrain (hn.mono fun e he => h₄.log e (h₃.log e he)) hdrain (hf.mono h₄.log)
      hw₄ ha
  · exact wp_nodeDetail h₅.writes fun _ _ _ => trivial

theorem safe_deleteNode (caller : Caller) (id : Uuid) :
    (platform app rely refusals).Safe (.deleteNode caller id) (deleteNode app caller id) {} := by
  refine wp_bind (wp_currentUser rfl (fun e => trivial) fun s₁ u h₁ _ => ?_)
  have hw₁ : s₁.tx.writes = [] := h₁.writes
  refine wp_bind (wp_getOwnedNode hw₁ (fun e => trivial) fun s₂ n h₂ hn _ => ?_)
  have hw₂ : s₂.tx.writes = [] := by rw [h₂.writes, hw₁]; rfl
  refine wp_bind (wp_getRunningForNode hw₂ (fun s₃ j h₃ => trivial) fun s₃ h₃ hmiss => ?_)
  have hw₃ : s₃.tx.writes = [] := by rw [h₃.writes, hw₂]; rfl
  refine wp_bind (wp_createAudit (target_ne_auditLog_of_empty hw₃) fun s₄ a h₄ ha => ?_)
  have hw₄ : s₄.tx.writes = _ := h₄.writes
  rw [hw₃, List.nil_append] at hw₄
  have hview : ∀ db, s₄.tx.view db = db.insert (.auditLog a) := fun db => by
    rw [Tx.view, hw₄]
    rfl
  have hlog : ∀ {s₅ : Conn} {ws}, s₄.Adds s₅ ws → ∀ e ∈ s₃.tx.log, e ∈ s₅.tx.log :=
    fun h₅ e he => h₅.log e (h₄.log e he)
  refine wp_bind (wp_bind (wp_delete (fun s₅ e he hlocks h₅ => wp_ret.2 (wp_ret.2 ?_))
    fun s₅ e h₅ he hq hnone => wp_ret.2 (wp_ret.2 ?_)))
  · have hw₅ : s₅.tx.writes = _ := h₅.writes
    rw [hw₄] at hw₅
    exact wp_bind (wp_commitTx (Shape.deleteNode (hn.mono fun e he => hlog h₅ e (h₃.log e he))
      (hmiss.mono (hlog h₅)) he (hview _) hlocks hw₅
      ⟨ha.event, ha.userId, ha.data, ha.fresh.mono h₅.log⟩) trivial)
  · have hw₅ : s₅.tx.writes = _ := h₅.writes
    rw [hw₄, List.append_nil] at hw₅
    have hgone : e.db.node n.id = none := by
      rw [hview, Db.get_insert_of_ne (by simp [Row.key])] at hnone
      rw [Db.node, hnone]
    exact wp_bind (wp_commitTx (Shape.deletedNode (hn.mono fun e he => hlog h₅ e (h₃.log e he))
      he hq hgone hw₅ ⟨ha.event, ha.userId, ha.data, ha.fresh.mono h₅.log⟩) trivial)

end GpuNetwork
