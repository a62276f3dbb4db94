import GpuNetwork.Commits.OneAtATime
import GpuNetwork.Commits.Queries
import GpuNetwork.Store.Alone

/-!
# Requests that are answered alone

What the control plane makes of a request while it handles no other, as a function of the
store.

* `served` — the answer and the store it leaves; `served_of_run` — that of a server on
  which nothing else happens.
* `alone_selectJob`, `alone_flush`, … — the repositories.
-/

namespace GpuNetwork

open ReadCommitted ReadCommitted.Spec

/-- A store of the control plane, with the session of a request. -/
abbrev Scene := World Row Key Cond

/-- What the control plane answers to a request that it handles alone, and what is left. -/
def served (app : App) (req : Request) (db : Database) (moments : Nat → Moment) :
    Except ApiError Response × Scene :=
  (handle app req).alone .database { db, moments }

variable {app : App} {req : Request} {w w' : Scene} {α : Type}

/-- **A server on which nothing else happens answers a request as it is served alone.** -/
theorem served_of_run {s s' : System} {ls : List (Label Request)} {th : Pending}
    {res : Except ApiError Response} (hls : OnlyRuns s.threads.length ls)
    (hquiet : ∀ t ∈ s.threads, t.ses.tx = {})
    (hrun : runFrom (controlPlane app) s (.spawn req :: ls) = some s')
    (hth : s'.threads[s.threads.length]? = some th) (hres : th.prog.result = some res) :
    ∃ moments w', Forward s.clock moments ∧ served app req s.db moments = (res, w') ∧
      w'.db = s'.db := by
  let s₁ : System := { s with threads := s.threads ++ [⟨req, handle app req, {}, none⟩] }
  have hnew : s₁.threads[s.threads.length]? = some ⟨req, handle app req, {}, none⟩ := by
    simp [s₁]
  have hothers : ∀ t ∈ s₁.others s.threads.length, t.ses.tx = {} := by
    rw [Sys.others, List.eraseIdx_append_of_length_le le_rfl]
    simpa using hquiet
  exact alone_of_runFrom (S := controlPlane app) hls hnew hothers hrun hth hres

/-- The commits of a request that is served alone. -/
theorem commits_of_served {db : Database} {moments : Nat → Moment} {res : Except ApiError Response}
    (h : served app req db moments = (res, w')) :
    (serially app).CommitAll req db w'.ses.past w'.db := by
  have hvalid : (serially app).Valid (controlPlane app) := platform_valid app _ _
  have hsafe := hvalid.handle req
  obtain ⟨txs, hpast, hall⟩ := commits_of_alone (w := { db, moments }) hsafe (by simp) h
  rw [hpast]
  exact hall

/-- A request with what its statements find. -/
structure Call where
  req : Request
  moments : Nat → Moment

/-- The store after requests that are served one after the other. -/
def serveAll (app : App) : Database → List Call → Database
  | db, [] => db
  | db, c :: cs => serveAll app (served app c.req db c.moments).2.db cs

/-! ## Queries -/

theorem reads_refresh (k : Key) : Reads (refresh k) := by
  refine Prog.emits_bind (Prog.emits_exec rfl) fun r => ?_
  cases r <;> trivial

theorem reads_refreshNode (id : Uuid) : Reads (refreshNode id) := by
  refine Prog.emits_bind (reads_refresh _) fun r => ?_
  split <;> trivial

theorem reads_refreshJob (id : Uuid) : Reads (refreshJob id) := by
  refine Prog.emits_bind (reads_refresh _) fun r => ?_
  split <;> trivial

/-- A row that has been refreshed is one of the store. -/
theorem alone_refresh {k : Key} {r : Row}
    (h : (refresh k).alone ApiError.database w = (.ok r, w')) :
    (w.ses.tx.view w.db).get k = some r := by
  rw [refresh, Prog.exec_bind, alone_select] at h
  rcases pickRow_cases (w.moments 0).pick (matching (w.ses.tx.view w.db) (.byKey k)) with
    ⟨hnone, -⟩ | ⟨x, hx, hsome⟩
  · rw [hnone] at h
    cases h
  · rw [hsome] at h
    cases h
    obtain ⟨hmem, hkey⟩ := mem_matching.1 hx
    have hk : r.key = k := of_decide_eq_true hkey
    rw [← hk]
    exact Db.get_of_mem hmem

theorem alone_refreshNode {id : Uuid} {n : Node}
    (h : (refreshNode id).alone ApiError.database w = (.ok n, w')) :
    (w.ses.tx.view w.db).node id = some n := by
  obtain ⟨r, w₁, hr, h⟩ := ok_of_bind h
  cases r with
  | node m => cases h; exact Db.get_node_iff.1 (alone_refresh hr)
  | _ => cases h

section Rules

variable {Q : α → Scene → Prop} {E : Scene → Prop}

theorem leads_getJobById {id : Uuid} {Q : Option Job → Scene → Prop}
    (h : Q ((w.ses.tx.view w.db).job id) (w.reads (.select (.byKey (.job id))))) :
    (getJobById id).Leads .database w Q E := by
  refine leads_bind (leads_select ?_)
  rw [pickRow_byKey, Db.get_job]
  cases hj : (w.ses.tx.view w.db).job id with
  | none => rw [hj] at h; exact h
  | some j => rw [hj] at h; exact h

theorem leads_getUserById {id : Uuid} {Q : Option User → Scene → Prop}
    (h : Q ((w.ses.tx.view w.db).user id) (w.reads (.select (.byKey (.user id))))) :
    (getUserById id).Leads .database w Q E := by
  refine leads_bind (leads_select ?_)
  rw [pickRow_byKey, Db.get_user]
  cases hu : (w.ses.tx.view w.db).user id with
  | none => rw [hu] at h; exact h
  | some u => rw [hu] at h; exact h

/-- A listing, in a transaction that has written nothing. -/
theorem leads_list {wh : Cond} {Q : List Row → Scene → Prop} (hw : w.ses.tx.writes = [])
    (h : ∀ w', w.Same w' → Q (matching w.db wh) w') :
    (Prog.exec (.selectAll wh) : Handler (List Row)).Leads .database w Q E := by
  refine leads_selectAll (leads_ret ?_)
  rw [Tx.view_of_no_writes hw]
  exact h _ (w.same_reads _)

/-- The agent of a node has shown its token. -/
structure AgentOf (app : App) (db : Database) (bearer : Option Str) (n : Node) : Prop where
  stored : db.node n.id = some n
  token : ∃ token hash, bearer = some token ∧ agentTokenPrefix.isPrefixOf token = true ∧
    n.agentTokenPrefix = some (lookupPrefix token) ∧ n.agentTokenHash = some hash ∧
    app.checkpw token hash = some true

/-- The agent is identified by one query. -/
theorem leads_currentNode {bearer : Option Str} {Q : Node → Scene → Prop}
    (hE : ∀ w', w.Same w' → E w')
    (h : ∀ n w', w.Same w' → (∀ k, w'.moments k = w.moments (k + 1)) →
      AgentOf app (w.ses.tx.view w.db) bearer n → Q n w') :
    (currentNode app bearer).Leads .database w Q E := by
  cases bearer with
  | none => exact hE w (World.Same.refl w)
  | some token =>
    refine leads_bind ?_
    unfold authenticateAgent
    split
    · rename_i hprefix
      refine leads_bind (leads_bind (leads_select ?_))
      have hsame := w.same_reads (.select (.nodeByAgentPrefix (lookupPrefix token)))
      rcases pickRow_cases (w.moments 0).pick (matching (w.ses.tx.view w.db)
        (.nodeByAgentPrefix (lookupPrefix token))) with ⟨hpick, -⟩ | ⟨r, hr, hpick⟩
      · rw [hpick]
        exact hE _ hsame
      · rw [hpick]
        obtain ⟨hmem, hholds⟩ := mem_matching.1 hr
        cases r with
        | node n =>
          have hpre : n.agentTokenPrefix = some (lookupPrefix token) := of_decide_eq_true hholds
          refine leads_ret (leads_ret ?_)
          dsimp only
          cases hhash : n.agentTokenHash with
          | none => exact hE _ hsame
          | some hash =>
            refine leads_bind ?_
            cases hvalid : app.checkpw token hash with
            | none => exact hE _ hsame
            | some valid =>
              cases valid with
              | false => exact hE _ hsame
              | true =>
                exact h n _ hsame (fun _ => rfl)
                  ⟨Db.get_node_iff.1 (Db.get_of_mem hmem), token, hash, rfl, hprefix, hpre,
                    hhash, hvalid⟩
        | _ => cases hholds
    · exact hE w (World.Same.refl w)

/-- The API key that is shown belongs to the user. -/
structure KeyOf (app : App) (db : Database) (token : Str) (k : ApiKey) (u : User) : Prop where
  stored : .apiKey k ∈ db.rows
  lookup : k.lookupPrefix = lookupPrefix token
  unrevoked : k.revokedAt = none
  check : app.checkpw token k.hash = some true
  owner : db.user k.userId = some u

/-- An API key is looked up, and then its user. -/
theorem leads_authenticateKey {token : Str} {Q : Option User → Scene → Prop}
    (hE : ∀ w', w.Same w' → E w') (hnone : ∀ w', w.Same w' → Q none w')
    (h : ∀ k u w', w.Same w' → (∀ i, w'.moments i = w.moments (i + 2)) →
      KeyOf app (w.ses.tx.view w.db) token k u → Q (some u) w') :
    (authenticateKey app token).Leads .database w Q E := by
  unfold authenticateKey
  refine leads_bind (leads_bind (leads_select ?_))
  have hsame := w.same_reads (.select (.apiKeyByPrefix (lookupPrefix token)))
  rcases pickRow_cases (w.moments 0).pick (matching (w.ses.tx.view w.db)
    (.apiKeyByPrefix (lookupPrefix token))) with ⟨hpick, -⟩ | ⟨r, hr, hpick⟩
  · rw [hpick]
    exact hnone _ hsame
  · rw [hpick]
    obtain ⟨hmem, hholds⟩ := mem_matching.1 hr
    cases r with
    | apiKey key =>
      show Prog.Leads ApiError.database (if key.revokedAt.isSome then pure none
        else do
          let valid ← orRaise (app.checkpw token key.hash)
          if valid then getUserById key.userId else pure none) _ _ _
      split
      · exact hnone _ hsame
      · rename_i hrevoked
        refine leads_bind ?_
        cases hcheck : app.checkpw token key.hash with
        | none => exact hE _ hsame
        | some valid =>
          cases valid with
          | false => exact hnone _ hsame
          | true =>
            refine leads_getUserById ?_
            have hsame₂ := hsame.trans
              (World.same_reads _ (.select (.byKey (.user key.userId))))
            rw [hsame.view]
            cases hu : (w.ses.tx.view w.db).user key.userId with
            | none => exact hnone _ hsame₂
            | some u =>
              exact h key u _ hsame₂ (fun _ => rfl) ⟨hmem, of_decide_eq_true hholds,
                Option.not_isSome_iff_eq_none.1 hrevoked, hcheck, hu⟩
    | _ => cases hholds

/-- A user is identified by two statements, by an API key or by a session token. -/
theorem leads_currentUser {bearer : Option Str} {Q : User → Scene → Prop}
    (hE : ∀ w', w.Same w' → E w')
    (h : ∀ u w', w.Same w' → (∀ k, w'.moments k = w.moments (k + 2)) →
      (w.ses.tx.view w.db).user u.id = some u → Q u w') :
    (currentUser app bearer).Leads .database w Q E := by
  have hfound : ∀ {id : Uuid} {w' : Scene} {u : User}, w.Same w' →
      (w'.ses.tx.view w'.db).user id = some u → (w.ses.tx.view w.db).user u.id = some u := by
    intro id w' u hsame hu
    rw [hsame.view] at hu
    rwa [Db.id_of_user hu]
  cases bearer with
  | none => exact hE w (World.Same.refl w)
  | some token =>
    unfold currentUser
    dsimp only
    split
    · refine leads_bind (leads_authenticateKey hE hE fun k u w' hsame hshift hk => ?_)
      exact h u w' hsame hshift (Db.id_of_user hk.owner ▸ hk.owner)
    · refine leads_bind (leads_now (leads_ret ?_))
      have hnow := w.same_next
      cases app.jwtDecode (w.moments 0).now token with
      | none => exact hE _ hnow
      | some subject =>
        dsimp only
        cases uuid? subject with
        | none => exact hE _ hnow
        | some id =>
          refine leads_bind (leads_getUserById ?_)
          have hsame := hnow.trans (World.same_reads _ (.select (.byKey (.user id))))
          cases hu : ((w.next w.db w.ses).ses.tx.view (w.next w.db w.ses).db).user id with
          | none => exact hE _ hsame
          | some u => exact h u _ hsame (fun _ => rfl) (hfound hnow hu)

/-- What is known of a caller who has been identified. -/
theorem caller_of_alone {db : Database} {bearer : Option Str} {moments : Nat → Moment}
    {u : User} {w : Scene}
    (h : (currentUser app bearer).alone .database ({ db, moments } : Scene) = (.ok u, w)) :
    ({ db, moments } : Scene).Same w ∧ (∀ k, w.moments k = moments (k + 2)) ∧
      db.user u.id = some u := by
  refine Prog.Leads.of_ok (Q := fun u w => ({ db, moments } : Scene).Same w ∧
    (∀ k, w.moments k = moments (k + 2)) ∧ db.user u.id = some u) (E := fun _ => True) ?_ h
  exact leads_currentUser (fun _ _ => trivial) fun u w' hsame hshift hu => ⟨hsame, hshift, hu⟩

/-- A flush notes the write of the changed columns. -/
theorem leads_flush {old new : Row} {Q : Unit → Scene → Prop}
    (hE : ∀ w', w'.db = w.db → w'.ses.past = w.ses.past → E w')
    (h : ∀ w', w.Adds w' (flushed old new) → Q () w') :
    (flush old new).Leads .database w Q E := by
  unfold flush
  by_cases hne : new = old
  · rw [if_pos hne]
    exact h w ⟨rfl, by simp [flushed, hne], rfl⟩
  · rw [if_neg hne]
    refine leads_bind (leads_update (hE _ rfl rfl) (fun cur _ _ => ?_) fun _ => hE _ rfl rfl)
    refine h _ ?_
    rw [flushed, if_neg hne]
    exact w.adds_takes _ _ _

/-- An audit row goes in. -/
theorem leads_createAudit {event : Event} {userId : Option Uuid} {data : EventData}
    {client : Client} {Q : Unit → Scene → Prop}
    (hE : ∀ w', w'.db = w.db → w'.ses.past = w.ses.past → E w')
    (h : ∀ w' a, a.eventType = event → a.userId = userId → a.eventData = data →
      w.Adds w' [.insert (.auditLog a)] → Q () w') :
    (createAudit event userId data client).Leads .database w Q E := by
  refine leads_bind (leads_random (leads_bind (leads_txTime (leads_insert (hE _ rfl rfl)
    fun _ _ _ => ?_))))
  exact h _ _ rfl rfl rfl ⟨rfl, rfl, rfl⟩

theorem leads_commitTx {Q : Unit → Scene → Prop}
    (h : ∀ w', w'.db = w.ses.tx.view w.db → w'.ses.past = w.ses.past ++ [w.ses.tx] →
      w'.ses.tx = {} → Q () w') : commit.Leads .database w Q E :=
  h _ rfl rfl rfl

end Rules

/-! ## Flushes -/

/-- A flush that goes through leaves the write of the changed columns. -/
theorem alone_flush {old new : Row} {u : Unit}
    (h : (flush old new).alone ApiError.database w = (.ok u, w')) :
    w'.db = w.db ∧ w'.ses.tx.writes = w.ses.tx.writes ++ flushed old new := by
  unfold flush at h
  by_cases hne : new = old
  · rw [if_pos hne] at h
    cases h
    exact ⟨rfl, by simp [flushed, hne]⟩
  · rw [if_neg hne, Prog.exec_bind, Prog.alone] at h
    split at h
    · cases h
    · cases h
    · rename_i matched ses db he
      cases matched with
      | false => cases h
      | true =>
        cases h
        rw [flushed, if_neg hne]
        simp only [exec] at he
        split at he
        · cases he
        · split at he <;> try cases he
          split at he <;> try cases he
          split at he <;> cases he
          exact ⟨rfl, rfl⟩

/-- The time a node was last seen. -/
theorem alone_updateLastSeen {n : Node} {u : Unit}
    (h : (updateLastSeen n).alone ApiError.database w = (.ok u, w')) :
    w'.db = w.db ∧ ∃ now, w'.ses.tx.writes =
      w.ses.tx.writes ++ flushed (.node n) (.node { n with lastSeenAt := some now }) := by
  rw [updateLastSeen, utcNow, Prog.exec_bind, alone_now] at h
  obtain ⟨hdb, hws⟩ := alone_flush h
  exact ⟨hdb, _, hws⟩

/-- A commit. -/
theorem alone_commitTx {u : Unit} (h : commit.alone ApiError.database w = (.ok u, w')) :
    w'.db = w.ses.tx.view w.db ∧ w'.ses.tx.writes = [] := by
  cases h
  exact ⟨rfl, rfl⟩

/-! ## A caller of `plainApp` -/

/-- Every statement draws the same number. -/
def draws (n : Nat) : Nat → Moment := fun _ => ⟨0, 0, n⟩

/-- The owner of the session of `sampleCaller`. -/
theorem leads_sampleCaller {Q : User → Scene → Prop} {E : Scene → Prop} {u : User}
    (hu : (w.ses.tx.view w.db).user 1 = some u) (h : ∀ w', w.Same w' → Q u w') :
    (currentUser plainApp sampleCaller.bearer).Leads .database w Q E := by
  refine leads_bind (leads_now (leads_ret ?_))
  show Prog.Leads ApiError.database (getUserById 1 >>= _) _ _ _
  refine leads_bind (leads_getUserById ?_)
  have hview : ((w.next w.db w.ses).ses.tx.view (w.next w.db w.ses).db).user 1 = some u := hu
  rw [hview]
  exact h _ (w.same_next.trans (World.same_reads _ _))

/-- The agent of `sampleNode`. -/
theorem leads_sampleAgent {Q : Node → Scene → Prop} {E : Scene → Prop}
    (hw : matching (w.ses.tx.view w.db) (.nodeByAgentPrefix (lookupPrefix sampleAgentToken)) =
      [.node sampleNode]) (h : ∀ w', w.Same w' → Q sampleNode w') :
    (currentNode plainApp (some sampleAgentToken)).Leads .database w Q E := by
  have hpick : pickRow (w.moments 0).pick [Row.node sampleNode] = some (.node sampleNode) := by
    simp [pickRow, Nat.mod_one]
  refine leads_bind (leads_bind (leads_bind (leads_select_of (o := some (.node sampleNode)) ?_ ?_)))
  · rw [hw, hpick]
  · exact h _ (w.same_reads _)

theorem caller_plainApp (s : Database) (h : s.user 1 = some sampleUser) (n : Nat) :
    ∃ w, (currentUser plainApp sampleCaller.bearer).alone .database
      ({ db := s, moments := draws n } : Scene) = (.ok sampleUser, w) := by
  have hleads : (currentUser plainApp sampleCaller.bearer).Leads .database
      ({ db := s, moments := draws n } : Scene) (fun u _ => u = sampleUser) fun _ => False :=
    leads_sampleCaller h fun _ _ => rfl
  obtain ⟨u, w, hu, rfl⟩ := hleads.exists_ok
  exact ⟨w, hu⟩

end GpuNetwork
