import GpuNetwork.Accounts.Tokens
import GpuNetwork.Commits.Alone

/-!
# Credentials

Whom a bearer string stands for.  An API key or an agent token is looked up by its first
twelve characters and checked against a hash; a session token is decoded.

* `AcceptedAsUser`, `AcceptedByKey`, `AcceptedAsNode` — what the two dependencies accept.
* `IssuedKey`, `IssuedAgent` — what has been handed out; `issuedKey_of_answer`.
* `KeyStays` — an API key is not deleted, and once revoked it stays so.
* `credentials_identify` — a string stands for the one it was issued to, until it is taken
  back.
-/

namespace GpuNetwork

open ReadCommitted ReadCommitted.Spec

/-! ## Acceptance -/

/-- `get_current_user` accepts the string as the user's. -/
def AcceptedAsUser (app : App) (db : Database) (token : Str) (u : User) : Prop :=
  ∃ moments w, (currentUser app (some token)).alone .database ({ db, moments } : Scene) = (.ok u, w)

/-- It does so through an API key. -/
def AcceptedByKey (app : App) (db : Database) (token : Str) (u : User) : Prop :=
  apiKeyPrefix.isPrefixOf token = true ∧ AcceptedAsUser app db token u

/-- `get_current_node` accepts the string as the node's. -/
def AcceptedAsNode (app : App) (db : Database) (token : Str) (n : Node) : Prop :=
  ∃ moments w, (currentNode app (some token)).alone .database ({ db, moments } : Scene) = (.ok n, w)

variable {app : App} {db : Database} {token : Str}

/-- Some reading of a query finds a row that it can find. -/
theorem exists_pick {wh : Cond} {r : Row} (h : r ∈ matching db wh) :
    ∃ pick, pickRow pick (matching db wh) = some r := by
  obtain ⟨i, hi, hr⟩ := List.getElem_of_mem h
  refine ⟨i, ?_⟩
  show (matching db wh)[i % (matching db wh).length]? = some r
  rw [Nat.mod_eq_of_lt hi, List.getElem?_eq_getElem hi, hr]

/-- A string with the marker of an API key is looked up as one. -/
theorem currentUser_of_apiKey (h : apiKeyPrefix.isPrefixOf token = true) :
    currentUser app (some token) = (do
      match ← authenticateKey app token with
      | some user => pure user
      | none => .throw .invalidApiKey) := if_pos h

/-- **What an API key is accepted for.** -/
theorem acceptedAsUser_iff (hmark : apiKeyPrefix.isPrefixOf token = true) {u : User} :
    AcceptedAsUser app db token u ↔ ∃ k, KeyOf app db token k u := by
  unfold AcceptedAsUser
  rw [currentUser_of_apiKey hmark]
  constructor
  · rintro ⟨moments, w, h⟩
    refine Prog.Leads.of_ok (Q := fun u _ => ∃ k, KeyOf app db token k u) (E := fun _ => True)
      ?_ h
    exact leads_bind (leads_authenticateKey (fun _ _ => trivial) (fun _ _ => trivial)
      fun k u w' _ _ hk => ⟨k, hk⟩)
  · rintro ⟨k, hk⟩
    obtain ⟨pick, hpick⟩ := exists_pick (mem_matching.2 ⟨hk.stored, decide_eq_true hk.lookup⟩ :
      Row.apiKey k ∈ matching db (.apiKeyByPrefix (lookupPrefix token)))
    suffices (do
        match ← authenticateKey app token with
        | some user => pure user
        | none => .throw .invalidApiKey : Handler User).Leads .database
        ({ db, moments := fun _ => ⟨0, 0, pick⟩ } : Scene) (fun u' _ => u' = u) (fun _ => False) by
      obtain ⟨u', w, hu, rfl⟩ := this.exists_ok
      exact ⟨_, w, hu⟩
    unfold authenticateKey
    refine leads_bind (leads_bind (leads_bind (leads_select_of hpick ?_)))
    show Prog.Leads ApiError.database (if k.revokedAt.isSome = true then pure none
      else do
        let valid ← orRaise (app.checkpw token k.hash)
        if valid then getUserById k.userId else pure none) _ _ _
    rw [hk.unrevoked, hk.check]
    refine leads_getUserById ?_
    show Prog.Leads ApiError.database (match db.user k.userId with
      | some user => pure user
      | none => .throw .invalidApiKey : Handler User) _ _ _
    rw [hk.owner]
    rfl

/-- A string with the marker of an agent token is looked up as one. -/
theorem authenticateAgent_of_agentToken (h : agentTokenPrefix.isPrefixOf token = true) :
    authenticateAgent app token = (do
      match ← getNodeByAgentPrefix (lookupPrefix token) with
      | none => pure none
      | some node =>
        match node.agentTokenHash with
        | none => pure none
        | some tokenHash => do
          let valid ← orRaise (app.checkpw token tokenHash)
          if valid then pure (some node) else pure none) := if_pos h

/-- The agent token that is shown is the node's. -/
structure TokenOf (app : App) (db : Database) (token : Str) (n : Node) : Prop where
  stored : .node n ∈ db.rows
  lookup : n.agentTokenPrefix = some (lookupPrefix token)
  check : ∃ hash, n.agentTokenHash = some hash ∧ app.checkpw token hash = some true

/-- **What an agent token is accepted for.** -/
theorem acceptedAsNode_iff {n : Node} : AcceptedAsNode app db token n ↔
    agentTokenPrefix.isPrefixOf token = true ∧ TokenOf app db token n := by
  constructor
  · rintro ⟨moments, w, h⟩
    refine Prog.Leads.of_ok (Q := fun n _ => agentTokenPrefix.isPrefixOf token = true ∧
      TokenOf app db token n) (E := fun _ => True) ?_ h
    refine leads_currentNode (fun _ _ => trivial) fun n w' _ _ hn => ?_
    obtain ⟨token', hash, htoken, hmark, hlookup, hhash, hcheck⟩ := hn.token
    cases htoken
    exact ⟨hmark, Db.mem_of_get (Db.get_node_iff.2 hn.stored), hlookup, hash, hhash, hcheck⟩
  · rintro ⟨hmark, hn⟩
    obtain ⟨hash, hhash, hcheck⟩ := hn.check
    obtain ⟨pick, hpick⟩ := exists_pick (mem_matching.2 ⟨hn.stored, decide_eq_true hn.lookup⟩ :
      Row.node n ∈ matching db (.nodeByAgentPrefix (lookupPrefix token)))
    suffices (currentNode app (some token)).Leads .database
        ({ db, moments := fun _ => ⟨0, 0, pick⟩ } : Scene) (fun n' _ => n' = n)
        (fun _ => False) by
      obtain ⟨n', w, hn', rfl⟩ := this.exists_ok
      exact ⟨_, w, hn'⟩
    refine leads_bind ?_
    rw [authenticateAgent_of_agentToken hmark]
    refine leads_bind (leads_bind (leads_select_of hpick ?_))
    show Prog.Leads ApiError.database (match n.agentTokenHash with
      | none => pure none
      | some tokenHash => do
        let valid ← orRaise (app.checkpw token tokenHash)
        if valid then pure (some n) else pure none) _ _ _
    rw [hhash]
    refine leads_bind ?_
    rw [hcheck]
    rfl

/-! ## Issued tokens -/

/-- The row holds the token. -/
def HoldsToken (app : App) : Row → Str → Prop
  | .apiKey k, token => Drawn app apiKeyPrefix k.lookupPrefix k.hash token
  | .claimToken c, token => Drawn app claimTokenPrefix c.lookupPrefix c.tokenHash token
  | .node n, token => ∃ prefixText hash, n.agentTokenPrefix = some prefixText ∧
      n.agentTokenHash = some hash ∧ Drawn app agentTokenPrefix prefixText hash token
  | _, _ => False

/-- What of a row with a credential no `UPDATE` writes. -/
def Row.credential : Row → Option Row
  | .apiKey k => some (.apiKey { k with revokedAt := none })
  | .node n => some (.node { n with status := .offline, lastSeenAt := none })
  | .claimToken c => some (.claimToken { c with consumedAt := none })
  | _ => none

/-- The commit is that of a user who asks for an API key. -/
def GeneratedBy (s : System) (i m : Nat) (userId : Uuid) : Prop :=
  ∃ th tx caller p u, s.threads[i]? = some th ∧ th.ses.past[m]? = some tx ∧
    th.req = .generateKey caller p ∧ AsUser tx u ∧ u.id = userId

/-- The API key has been issued to the user, and reads so. -/
def IssuedKey (app : App) (s : System) (token : Str) (userId id : Uuid) : Prop :=
  ∃ i m k, s.Inserted i m (.apiKey k) ∧ GeneratedBy s i m userId ∧ k.id = id ∧
    k.userId = userId ∧ HoldsToken app (.apiKey k) token

/-- The API key has been revoked. -/
def RevokedKey (db : Database) (id : Uuid) : Prop :=
  ∃ k, .apiKey k ∈ db.rows ∧ k.id = id ∧ k.revokedAt ≠ none

/-- The agent token has been issued to the node. -/
def IssuedAgent (app : App) (s : System) (token : Str) (n : Node) : Prop :=
  ∃ i m n₀, s.Inserted i m (.node n₀) ∧
    (Row.node n₀).credential = (Row.node n).credential ∧ HoldsToken app (.node n₀) token

/-- No two tokens that have been issued are the same. -/
def TokensDistinct (app : App) (s : System) : Prop :=
  ∀ i m r i' m' r' token, s.Inserted i m r → s.Inserted i' m' r' → HoldsToken app r token →
    HoldsToken app r' token → i = i' ∧ m = m'

/-- Nothing has been issued. -/
def NoTokens (db : Database) : Prop := ∀ r ∈ db.rows, ¬ IsTokenRow r

/-- bcrypt accepts the string that was hashed, and no other. -/
def BcryptExact (app : App) : Prop :=
  ∀ salt text hash, app.hashpw salt text = some hash →
    ∀ text', app.checkpw text' hash = some true ↔ text' = text

/-- Only strings that `create_access_token` has produced are decoded, and these bear no marker
of a token. -/
structure SessionTokens (app : App) : Prop where
  decodes : ∀ now text subject, app.jwtDecode now text = some subject →
    ∃ id expires, text = app.jwtEncode id expires
  apiKey : ∀ id expires, apiKeyPrefix.isPrefixOf (app.jwtEncode id expires) = false
  agent : ∀ id expires, agentTokenPrefix.isPrefixOf (app.jwtEncode id expires) = false

theorem versions_credential : Versions fun a b : Row => a.credential = b.credential := by
  refine ⟨fun a => rfl, Eq.trans, fun old new cur => ?_⟩
  cases cur <;> cases old <;> cases new <;> rfl

/-- A version of an API key. -/
theorem apiKey_of_credential {r : Row} {k : ApiKey}
    (h : r.credential = (Row.apiKey k).credential) : ∃ k₀, r = .apiKey k₀ ∧ k₀.id = k.id ∧
      k₀.userId = k.userId ∧ k₀.lookupPrefix = k.lookupPrefix ∧ k₀.hash = k.hash := by
  cases r with
  | apiKey k₀ =>
    have hk := Row.apiKey.inj (Option.some.inj h)
    exact ⟨k₀, rfl, (congrArg ApiKey.id hk :), (congrArg ApiKey.userId hk :),
      (congrArg ApiKey.lookupPrefix hk :), (congrArg ApiKey.hash hk :)⟩
  | node n => cases h
  | _ => cases h

/-- A version of a claim token. -/
theorem claimToken_of_credential {r : Row} {c : ClaimToken}
    (h : r.credential = (Row.claimToken c).credential) :
    ∃ c₀, r = .claimToken c₀ ∧ c₀.userId = c.userId ∧ c₀.lookupPrefix = c.lookupPrefix := by
  cases r with
  | claimToken c₀ =>
    have hc := Row.claimToken.inj (Option.some.inj h)
    exact ⟨c₀, rfl, (congrArg ClaimToken.userId hc :), (congrArg ClaimToken.lookupPrefix hc :)⟩
  | node n => cases h
  | apiKey k => cases h
  | _ => cases h

/-- A version of a node. -/
theorem node_of_credential {r : Row} {n : Node} (h : r.credential = (Row.node n).credential) :
    ∃ n₀, r = .node n₀ ∧ n₀.id = n.id ∧ n₀.agentTokenPrefix = n.agentTokenPrefix ∧
      n₀.agentTokenHash = n.agentTokenHash := by
  cases r with
  | node n₀ =>
    have hn := Row.node.inj (Option.some.inj h)
    exact ⟨n₀, rfl, (congrArg Node.id hn :), (congrArg Node.agentTokenPrefix hn :),
      (congrArg Node.agentTokenHash hn :)⟩
  | apiKey k => cases h
  | _ => cases h

theorem marked_of_drawn {marker prefixText hash : Str}
    (h : Drawn app marker prefixText hash token) : marker.isPrefixOf token = true := by
  obtain ⟨-, bytes, salt, rfl, -⟩ := h
  exact List.isPrefixOf_iff_prefix.2 (List.prefix_append _ _)

/-- The token that a hash was made of is the only one it accepts. -/
theorem BcryptExact.eq_of_drawn (hb : BcryptExact app) {marker prefixText hash text : Str}
    (h : Drawn app marker prefixText hash token) : app.checkpw text hash = some true ↔
      text = token := by
  obtain ⟨-, bytes, salt, -, hhash⟩ := h
  exact hb _ _ _ hhash text

/-! ## Prefixes -/

theorem eq_of_keyPrefix (hd : PrefixesDiffer db) {k k' : ApiKey} (hk : .apiKey k ∈ db.rows)
    (hk' : .apiKey k' ∈ db.rows) (h : k.lookupPrefix = k'.lookupPrefix) : k = k' := by
  by_contra hne
  have hclash := hd _ hk _ hk' trivial trivial fun he => hne (Row.apiKey.inj he)
  rw [Row.clash, decide_eq_true h] at hclash
  cases hclash

theorem eq_of_agentPrefix (hd : PrefixesDiffer db) {n n' : Node} {p : Str}
    (hn : .node n ∈ db.rows) (hn' : .node n' ∈ db.rows) (h : n.agentTokenPrefix = some p)
    (h' : n'.agentTokenPrefix = some p) : n = n' := by
  by_contra hne
  have hclash := hd _ hn _ hn' trivial trivial fun he => hne (Row.node.inj he)
  rw [Row.clash, h, h'] at hclash
  simp at hclash

/-! ## What is issued -/

section Commits

variable {req : Request} {tx : Transaction}

theorem generates_of_may {k : ApiKey} (h : req.may (.insert (.apiKey k))) :
    ∃ caller p, req = .generateKey caller p := by
  cases req with
  | generateKey caller p => exact ⟨caller, p, rfl⟩
  | pushMetrics bearer id samples =>
    obtain ⟨g, hg⟩ := h
    cases hg
  | _ => cases h

theorem registers_of_may {n : Node} (h : req.may (.insert (.node n))) :
    ∃ client p, req = .registerNode client p := by
  cases req with
  | registerNode client p => exact ⟨client, p, rfl⟩
  | pushMetrics bearer id samples =>
    obtain ⟨g, hg⟩ := h
    cases hg
  | _ => cases h

theorem revokes_of_may {k : ApiKey} {new : Row} (h : req.may (.update (.apiKey k) new)) :
    ∃ caller id, req = .revokeKey caller id := by
  cases req with
  | revokeKey caller id => exact ⟨caller, id, rfl⟩
  | pushMetrics bearer id samples =>
    obtain ⟨g, hg⟩ := h
    cases hg
  | _ => cases h

/-- An API key is issued to the user who asks for it. -/
theorem key_of_insert (h : (issuing app).shape req tx) {k : ApiKey}
    (hk : .insert (.apiKey k) ∈ tx.writes) : ∃ caller p u a token,
      req = .generateKey caller p ∧ AsUser tx u ∧ k.userId = u.id ∧
      HoldsToken app (.apiKey k) token ∧ tx.Fresh (.apiKey k.id) ∧
      tx.writes = [.insert (.apiKey k), .insert (.auditLog a)] := by
  obtain ⟨caller, p, rfl⟩ := generates_of_may (may_of_shape h.1 _ hk)
  obtain ⟨u, k', a, token, hu, hid, -, hdrawn, hfresh, hw⟩ := h.2
  rw [hw] at hk
  obtain rfl : k = k' := by simpa using hk
  exact ⟨caller, p, u, a, token, rfl, hu, hid, hdrawn, hfresh, hw⟩

/-- One node is registered, with its agent token. -/
theorem node_of_insert (h : (issuing app).shape req tx) {n : Node}
    (hn : .insert (.node n) ∈ tx.writes) :
    (∃ token, HoldsToken app (.node n) token) ∧
      ∀ n', .insert (.node n') ∈ tx.writes → n' = n := by
  obtain ⟨client, p, rfl⟩ := registers_of_may (may_of_shape h.1 _ hn)
  obtain ⟨n₁, c, c', a, token, prefixText, hash, hpre, hhash, hdrawn, hw⟩ := h.2
  rw [hw] at hn ⊢
  obtain rfl : n = n₁ := by simpa using hn
  exact ⟨⟨token, prefixText, hash, hpre, hhash, hdrawn⟩, fun n' hn' => by simpa using hn'⟩

/-- An API key is not deleted, and once revoked it stays so. -/
def KeyStays (a b : Option Row) : Prop :=
  ∀ k, a = some (.apiKey k) → ∃ k', b = some (.apiKey k') ∧
    (Row.apiKey k).credential = (Row.apiKey k').credential ∧
    (k.revokedAt ≠ none → k'.revokedAt ≠ none)

theorem KeyStays.refl (a : Option Row) : KeyStays a a := fun k hk => ⟨k, hk, rfl, id⟩

theorem KeyStays.trans {a b c : Option Row} (h : KeyStays a b) (h' : KeyStays b c) :
    KeyStays a c := by
  intro k hk
  obtain ⟨k₁, hk₁, hcred, hrevoked⟩ := h k hk
  obtain ⟨k₂, hk₂, hcred', hrevoked'⟩ := h' k₁ hk₁
  exact ⟨k₂, hk₂, hcred.trans hcred', fun hr => hrevoked' (hrevoked hr)⟩

/-- Each write leaves the API keys. -/
theorem keyStays_on (h : (issuing app).shape req tx) {w : Write Row Key} (hw : w ∈ tx.writes)
    (id : Uuid) (o : Option Row) : KeyStays o (w.on (.apiKey id) o) := by
  have hmay := may_of_shape h.1 w hw
  by_cases ht : w.target = .apiKey id
  · intro k hk
    subst hk
    cases w with
    | insert r =>
      have hon : (Write.insert r : Write Row Key).on (.apiKey id) (some (.apiKey k)) =
        some (.apiKey k) := if_pos ht
      exact ⟨k, hon, rfl, fun hr => hr⟩
    | update old new =>
      cases old with
      | apiKey k₁ =>
        obtain ⟨caller, keyId, rfl⟩ := revokes_of_may hmay
        obtain ⟨k₂, now, a, -, -, -, hws⟩ := h.2
        rw [hws] at hw
        obtain ⟨rfl, rfl⟩ : k₁ = k₂ ∧ new = .apiKey { k₂ with revokedAt := some now } := by
          simpa using hw
        refine ⟨_, Write.on_update_of_some ht, rfl, fun hr => ?_⟩
        show col k₁.revokedAt (some now) k.revokedAt ≠ none
        unfold col
        split
        · exact hr
        · exact Option.some_ne_none now
      | _ => cases ht
    | delete key =>
      cases (show key = .apiKey id from ht)
      cases req with
      | pushMetrics bearer nodeId samples =>
        obtain ⟨g, hg⟩ := hmay
        cases hg
      | _ => cases hmay
  · rw [Write.on_of_ne ht]
    exact KeyStays.refl o

theorem keyStays_of_committing (h : (issuing app).Committing db req tx) (id : Uuid) :
    KeyStays (db.get (.apiKey id)) ((tx.view db).get (.apiKey id)) :=
  view_rel KeyStays.refl (fun _ _ _ => KeyStays.trans)
    (fun _ hw => keyStays_on h.shape hw id) db

end Commits

/-! ## Runs -/

variable {T : Terms Row Request ApiError Response} {clock : Time} {s s' : System}

/-- **An API key is not deleted, and once revoked it stays so**, in any run. -/
theorem keyStays_of_reach (hok : (issuing app).Ok s) (h : Reach (controlPlane app) T s s')
    (id : Uuid) : KeyStays (s.db.get (.apiKey id)) (s'.db.get (.apiKey id)) := by
  exact invariant (issuing_valid app) (fun _ _ _ hs _ _ => issuing_kept hs)
    (fun d => KeyStays (s.db.get (.apiKey id)) (d.get (.apiKey id)))
    (fun _ _ _ _ _ _ _ hcom hI => hI.trans (keyStays_of_committing hcom id)) hok
    (KeyStays.refl _) h

/-- An API key that has been issued is in the store. -/
theorem stored_of_inserted (h : Reach (controlPlane app) T (idle db clock) s) {i m : Nat}
    {k : ApiKey} (hk : s.Inserted i m (.apiKey k)) : ∃ k', s.db.get (.apiKey k.id) =
      some (.apiKey k') ∧ (Row.apiKey k).credential = (Row.apiKey k').credential := by
  have hC : (issuing app).Chronicle (controlPlane app) T (fun _ => True) fun _ tx d => ∀ k,
      .insert (.apiKey k) ∈ tx.writes → ∃ k', d.get (.apiKey k.id) = some (.apiKey k') ∧
        (Row.apiKey k).credential = (Row.apiKey k').credential := by
    refine ⟨fun _ _ _ hs _ _ => issuing_kept hs, fun _ _ _ _ _ _ _ _ _ => trivial,
      fun _ _ _ _ _ _ _ hcom _ k hk => ?_, fun _ _ _ _ _ _ _ hcom _ req tx hG k hk => ?_⟩
    · obtain ⟨caller, p, u, a, token, -, -, -, -, hfresh, hw⟩ := key_of_insert hcom.shape hk
      refine ⟨k, ?_, rfl⟩
      rw [get_view_of_first hw (by simp [Write.target, Row.key]), hcom.get_of_fresh hfresh]
      exact if_pos rfl
    · obtain ⟨k', hk', hcred⟩ := hG k hk
      obtain ⟨k'', hk'', hcred', -⟩ := keyStays_of_committing hcom k.id k' hk'
      exact ⟨k'', hk'', hcred.trans hcred'⟩
  obtain ⟨th, tx, hi, hm, hw⟩ := hk
  exact (history (issuing_valid app) hC rfl trivial h).2.2 i th hi tx (List.mem_of_getElem? hm) k hw

/-! ## Markers -/

theorem markers_differ (h : apiKeyPrefix.isPrefixOf token = true) :
    agentTokenPrefix.isPrefixOf token = false := by
  by_contra hagent
  rw [Bool.not_eq_false, List.isPrefixOf_iff_prefix] at hagent
  have hle : apiKeyPrefix.length ≤ agentTokenPrefix.length := by decide
  have hpre := List.prefix_of_prefix_length_le (List.isPrefixOf_iff_prefix.1 h) hagent hle
  exact absurd (List.isPrefixOf_iff_prefix.2 hpre) (by decide)

/-- A string without the marker of an API key is decoded as a session token. -/
theorem decoded_of_accepted (hmark : apiKeyPrefix.isPrefixOf token = false) {u : User}
    (h : AcceptedAsUser app db token u) :
    ∃ now subject, app.jwtDecode now token = some subject := by
  obtain ⟨moments, w, h⟩ := h
  have hun : currentUser app (some token) = utcNow >>= _ := if_neg (by simp [hmark])
  rw [hun, utcNow, Prog.exec_bind, alone_now] at h
  cases hdecode : app.jwtDecode (moments 0).now token with
  | none =>
    dsimp only at h
    rw [hdecode] at h
    cases h
  | some subject => exact ⟨_, subject, hdecode⟩

/-- What is accepted as a user's bears no marker of an agent token. -/
theorem unmarked_of_accepted (hj : SessionTokens app) {u : User}
    (h : AcceptedAsUser app db token u) : agentTokenPrefix.isPrefixOf token = false := by
  cases hmark : apiKeyPrefix.isPrefixOf token with
  | true => exact markers_differ hmark
  | false =>
    obtain ⟨now, subject, hdecode⟩ := decoded_of_accepted hmark h
    obtain ⟨id, expires, rfl⟩ := hj.decodes now token subject hdecode
    exact hj.agent id expires

/-! ## What is accepted -/

section Accepted

variable (hb : BcryptExact app) (hdb : NoTokens db)
  (h : Reach (controlPlane app) T (idle db clock) s)

include hb hdb h

/-- A stored API key that the string is checked against has been issued as that string. -/
theorem issuedKey_of_stored {k : ApiKey} (hk : .apiKey k ∈ s.db.rows)
    (hcheck : app.checkpw token k.hash = some true) : IssuedKey app s token k.userId k.id := by
  obtain ⟨y, hy, hold⟩ := origin_since versions_credential h _ hk
  obtain ⟨k₀, rfl, hid, huser, -, hhash⟩ := apiKey_of_credential hy
  obtain hold | ⟨i, m, ⟨th, tx, hi, hm, hw⟩, -⟩ := hold
  · exact absurd trivial (hdb _ hold)
  · have hshape := (issuing_ok rfl h).past i th hi tx (List.mem_of_getElem? hm)
    obtain ⟨caller, p, u, a, token', hreq, hu, huid, hholds, -, -⟩ := key_of_insert hshape hw
    rw [← hhash] at hcheck
    obtain rfl := (hb.eq_of_drawn hholds).1 hcheck
    exact ⟨i, m, k₀, ⟨th, tx, hi, hm, hw⟩,
      ⟨th, tx, caller, p, u, hi, hm, hreq, hu, huid.symm.trans huser⟩, hid, huser, hholds⟩

/-- A stored node that the string is checked against has been issued that agent token. -/
theorem issuedAgent_of_stored {n : Node} (hn : TokenOf app s.db token n) :
    IssuedAgent app s token n := by
  obtain ⟨y, hy, hold⟩ := origin_since versions_credential h _ hn.stored
  obtain ⟨n₀, rfl, -, -, hhash⟩ := node_of_credential hy
  obtain hold | ⟨i, m, ⟨th, tx, hi, hm, hw⟩, -⟩ := hold
  · exact absurd trivial (hdb _ hold)
  · have hshape := (issuing_ok rfl h).past i th hi tx (List.mem_of_getElem? hm)
    obtain ⟨⟨token', hholds⟩, -⟩ := node_of_insert hshape hw
    obtain ⟨prefixText, hash, hpre, hhash', hdrawn⟩ := hholds
    obtain ⟨hash', hn', hcheck⟩ := hn.check
    rw [← hhash, hhash', Option.some.injEq] at hn'
    subst hn'
    obtain rfl := (hb.eq_of_drawn hdrawn).1 hcheck
    exact ⟨i, m, n₀, ⟨th, tx, hi, hm, hw⟩, hy, prefixText, hash, hpre, hhash', hdrawn⟩

/-- **The API keys that are accepted** are those that have been issued and not revoked. -/
theorem acceptedByKey_iff {u : User} : AcceptedByKey app s.db token u ↔
    s.db.user u.id = some u ∧ ∃ id, IssuedKey app s token u.id id ∧ ¬ RevokedKey s.db id := by
  constructor
  · rintro ⟨hmark, hacc⟩
    obtain ⟨k, hk⟩ := (acceptedAsUser_iff hmark).1 hacc
    have huser : u.id = k.userId := Db.id_of_user hk.owner
    refine ⟨huser ▸ hk.owner, k.id, huser ▸ issuedKey_of_stored hb hdb h hk.stored hk.check, ?_⟩
    rintro ⟨k', hk', hid, hrevoked⟩
    have hget := Db.get_of_mem hk'
    rw [show Schema.key (Row.apiKey k') = Schema.key (Row.apiKey k) from congrArg Key.apiKey hid,
      Db.get_of_mem hk.stored, Option.some.injEq, Row.apiKey.injEq] at hget
    exact hrevoked (hget ▸ hk.unrevoked)
  · rintro ⟨hu, id, ⟨i, m, k₀, hins, -, rfl, huser, hholds⟩, hrevoked⟩
    obtain ⟨k, hk, hcred⟩ := stored_of_inserted h hins
    obtain ⟨k₁, heq, hid, huser', hlookup, hhash⟩ := apiKey_of_credential hcred
    cases heq
    have hmem := Db.mem_of_get hk
    refine ⟨marked_of_drawn hholds, (acceptedAsUser_iff (marked_of_drawn hholds)).2 ⟨k, hmem,
      hlookup.symm.trans hholds.1, ?_, ?_, ?_⟩⟩
    · by_contra hne
      exact hrevoked ⟨k, hmem, hid.symm, hne⟩
    · rw [← hhash]
      exact (hb.eq_of_drawn hholds).2 rfl
    · rw [← huser', huser]
      exact hu

/-- **The agent tokens that are accepted** are those of the nodes that are there. -/
theorem acceptedAsNode_iff_issued {n : Node} : AcceptedAsNode app s.db token n ↔
    s.db.node n.id = some n ∧ IssuedAgent app s token n := by
  rw [acceptedAsNode_iff]
  constructor
  · rintro ⟨-, hn⟩
    exact ⟨Db.get_node_iff.1 (Db.get_of_mem hn.stored), issuedAgent_of_stored hb hdb h hn⟩
  · rintro ⟨hn, i, m, n₀, -, hcred, prefixText, hash, hpre, hhash, hdrawn⟩
    obtain ⟨n₁, heq, -, hpre', hhash'⟩ := node_of_credential hcred
    cases heq
    refine ⟨marked_of_drawn hdrawn, Db.mem_of_get (Db.get_node_iff.2 hn), ?_, hash, ?_, ?_⟩
    · rw [← hpre', hpre, hdrawn.1]
    · rw [← hhash', hhash]
    · exact (hb.eq_of_drawn hdrawn).2 rfl

end Accepted

theorem prefixesDiffer_of_noTokens (h : NoTokens db) : PrefixesDiffer db :=
  fun a ha _ _ hta => absurd hta (h a ha)

/-- An API key stands for one user. -/
theorem eq_of_acceptedByKey (hd : PrefixesDiffer db) {u u' : User}
    (h : AcceptedByKey app db token u) (h' : AcceptedByKey app db token u') : u = u' := by
  obtain ⟨k, hk⟩ := (acceptedAsUser_iff h.1).1 h.2
  obtain ⟨k', hk'⟩ := (acceptedAsUser_iff h'.1).1 h'.2
  obtain rfl := eq_of_keyPrefix hd hk.stored hk'.stored (hk.lookup.trans hk'.lookup.symm)
  exact Option.some.inj (hk.owner.symm.trans hk'.owner)

/-- An agent token stands for one node. -/
theorem eq_of_acceptedAsNode (hd : PrefixesDiffer db) {n n' : Node}
    (h : AcceptedAsNode app db token n) (h' : AcceptedAsNode app db token n') : n = n' := by
  obtain ⟨-, hn⟩ := acceptedAsNode_iff.1 h
  obtain ⟨-, hn'⟩ := acceptedAsNode_iff.1 h'
  exact eq_of_agentPrefix hd hn.stored hn'.stored hn.lookup hn'.lookup

/-! ## Revocation -/

/-- The token has been taken back: its key is revoked, or its node deleted. -/
def TakenBack (app : App) (s : System) (token : Str) : Prop :=
  (∃ userId id, IssuedKey app s token userId id ∧ RevokedKey s.db id) ∨
    ∃ n, IssuedAgent app s token n ∧ s.db.node n.id = none

/-- Nobody accepts the string. -/
def Rejected (app : App) (db : Database) (token : Str) : Prop :=
  (∀ u, ¬ AcceptedAsUser app db token u) ∧ ∀ n, ¬ AcceptedAsNode app db token n

/-- A revoked API key is rejected from then on. -/
theorem rejected_of_revoked (hdb : NoTokens db)
    (h : Reach (controlPlane app) T (idle db clock) s) (h' : Reach (controlPlane app) T s s')
    {userId id : Uuid} (hissued : IssuedKey app s token userId id) (hrevoked : RevokedKey s.db id) :
    Rejected app s'.db token := by
  obtain ⟨i, m, k₀, hins, -, rfl, -, hholds⟩ := hissued
  have hmark : apiKeyPrefix.isPrefixOf token = true := marked_of_drawn hholds
  refine ⟨fun u hu => ?_, fun n hn => ?_⟩
  · obtain ⟨k, hk⟩ := (acceptedAsUser_iff hmark).1 hu
    obtain ⟨k₁, hk₁, hcred⟩ := stored_of_inserted h hins
    obtain ⟨k₂, hk₂, hid, hne⟩ := hrevoked
    -- the key that has been revoked is the one that was issued
    have hget := Db.get_of_mem hk₂
    rw [show Schema.key (Row.apiKey k₂) = .apiKey k₀.id from congrArg Key.apiKey hid, hk₁,
      Option.some.injEq, Row.apiKey.injEq] at hget
    subst hget
    obtain ⟨k₃, hk₃, hcred', hstill⟩ := keyStays_of_reach (issuing_ok rfl h) h' k₀.id k₁ hk₁
    obtain ⟨k₄, heq, -, -, hlookup, -⟩ := apiKey_of_credential (hcred.trans hcred')
    cases heq
    have hd := prefixes_differ (prefixesDiffer_of_noTokens hdb) (h.trans h')
    obtain rfl := eq_of_keyPrefix hd (Db.mem_of_get hk₃) hk.stored
      (hlookup.symm.trans (hholds.1.trans hk.lookup.symm))
    exact hstill hne hk.unrevoked
  · have hagent := (acceptedAsNode_iff.1 hn).1
    rw [markers_differ hmark] at hagent
    cases hagent

/-- The agent token of a deleted node is rejected from then on. -/
theorem rejected_of_deleted (hb : BcryptExact app) (hj : SessionTokens app) (hdb : NoTokens db)
    (h : Reach (controlPlane app) T (idle db clock) s) (h' : Reach (controlPlane app) T s s')
    (hdistinct : TokensDistinct app s') {n : Node} (hissued : IssuedAgent app s token n)
    (hdeleted : s.db.node n.id = none) : Rejected app s'.db token := by
  obtain ⟨i, m, n₀, hins, hcred, hholds⟩ := hissued
  have hins' := inserted_of_reach h' hins
  obtain ⟨prefixText, hash, -, -, hdrawn⟩ := id hholds
  refine ⟨fun u hu => ?_, fun n' hn' => ?_⟩
  · have hmark := unmarked_of_accepted hj hu
    rw [marked_of_drawn hdrawn] at hmark
    cases hmark
  · obtain ⟨-, j, k, n₁, hins₁, hcred₁, hholds₁⟩ :=
      (acceptedAsNode_iff_issued hb hdb (h.trans h')).1 hn'
    -- the node that is accepted is the one that was registered with the token
    obtain ⟨rfl, rfl⟩ := hdistinct _ _ _ _ _ _ token hins' hins₁ hholds hholds₁
    have hsame : n₁ = n₀ := by
      obtain ⟨th, tx, hi, hm, hw⟩ := hins'
      obtain ⟨th', tx', hi', hm', hw'⟩ := hins₁
      rw [hi, Option.some.injEq] at hi'
      subst hi'
      rw [hm, Option.some.injEq] at hm'
      subst hm'
      have hshape := (issuing_ok rfl (h.trans h')).past i th hi tx (List.mem_of_getElem? hm)
      exact (node_of_insert hshape hw).2 n₁ hw'
    subst hsame
    -- it was there, or it has been registered since
    have hstored := (acceptedAsNode_iff.1 hn').2
    obtain ⟨y, hy, hold | ⟨i', m', hins₂, hfresh⟩⟩ := origin_since versions_credential h' _
      hstored.stored
    · obtain ⟨n₂, rfl, hid, -⟩ := node_of_credential (hy.trans (hcred₁.symm.trans hcred))
      have hget := Db.get_node_iff.1 (Db.get_of_mem hold)
      rw [hid, hdeleted] at hget
      cases hget
    · obtain ⟨n₂, rfl, -, hpre, hhash⟩ := node_of_credential (hy.trans hcred₁.symm)
      have hholds₂ : HoldsToken app (.node n₂) token := by
        obtain ⟨p, x, hp, hx, hd⟩ := hholds
        exact ⟨p, x, hpre.trans hp, hhash.trans hx, hd⟩
      obtain ⟨rfl, rfl⟩ := hdistinct _ _ _ _ _ _ token hins' hins₂ hholds hholds₂
      exact hfresh _ hins

/-- The API key that is handed out has been issued. -/
theorem issuedKey_of_answer (h : Reach (controlPlane app) T (idle db clock) s) {i : Nat}
    {th : Pending} (hi : s.threads[i]? = some th) {caller : Caller} {p : GenerateKeyRequest}
    (hreq : th.req = .generateKey caller p) {key : ApiKey}
    (hp : th.prog = .ret (.apiKeyGenerated key token)) :
    ∃ userId, IssuedKey app s token userId key.id := by
  have hok := issuing_ok rfl h
  have hsafe := hok.safe i th hi
  rw [hp, hreq] at hsafe
  obtain ⟨tx, k, htx, hk, hid, hdrawn⟩ := hsafe.2
  obtain ⟨m, hm⟩ := List.getElem?_of_mem htx
  obtain ⟨caller', p', u, a, token', hreq', hu, huid, -⟩ :=
    key_of_insert (hok.past i th hi tx htx) hk
  exact ⟨k.userId, i, m, k, ⟨th, tx, hi, hm, hk⟩,
    ⟨th, tx, caller', p', u, hi, hm, hreq', hu, huid.symm⟩, hid, rfl, hdrawn⟩

/-- The agent token that is handed out has been issued. -/
theorem issuedAgent_of_answer (h : Reach (controlPlane app) T (idle db clock) s) {i : Nat}
    {th : Pending} (hi : s.threads[i]? = some th) {client : Client} {p : RegisterNodeRequest}
    (hreq : th.req = .registerNode client p) {id : Uuid} {url : Str}
    (hp : th.prog = .ret (.registered id token url)) :
    ∃ n, n.id = id ∧ IssuedAgent app s token n := by
  have hsafe := (issuing_ok rfl h).safe i th hi
  rw [hp, hreq] at hsafe
  obtain ⟨tx, n, prefixText, hash, htx, hn, hid, hpre, hhash, hdrawn⟩ := hsafe.2
  obtain ⟨m, hm⟩ := List.getElem?_of_mem htx
  exact ⟨n, hid, i, m, n, ⟨th, tx, hi, hm, hn⟩, rfl, prefixText, hash, hpre, hhash, hdrawn⟩

/-- **A credential identifies one principal, and is not accepted again once it is taken
back.**  In every state of every run, a string is accepted from a user or from a node, but
not from both; it stands for a user as an API key if it has been issued to them and not been
revoked, and for a node if it has been issued to it and the node is there. -/
theorem credentials_identify (hb : BcryptExact app) (hj : SessionTokens app) (hdb : NoTokens db)
    (h : Reach (controlPlane app) T (idle db clock) s) (token : Str) :
    (∀ u n, AcceptedAsUser app s.db token u → ¬ AcceptedAsNode app s.db token n) ∧
    (∀ u u', AcceptedByKey app s.db token u → AcceptedByKey app s.db token u' → u = u') ∧
    (∀ n n', AcceptedAsNode app s.db token n → AcceptedAsNode app s.db token n' → n = n') ∧
    (∀ u, AcceptedByKey app s.db token u ↔ s.db.user u.id = some u ∧
      ∃ id, IssuedKey app s token u.id id ∧ ¬ RevokedKey s.db id) ∧
    (∀ n, AcceptedAsNode app s.db token n ↔
      s.db.node n.id = some n ∧ IssuedAgent app s token n) ∧
    (TakenBack app s token → ∀ s', Reach (controlPlane app) T s s' → TokensDistinct app s' →
      Rejected app s'.db token) := by
  have hd := prefixes_differ (prefixesDiffer_of_noTokens hdb) h
  refine ⟨fun u n hu hn => ?_, fun u u' => eq_of_acceptedByKey hd,
    fun n n' => eq_of_acceptedAsNode hd, fun u => acceptedByKey_iff hb hdb h,
    fun n => acceptedAsNode_iff_issued hb hdb h, fun htaken s' h' hdistinct => ?_⟩
  · have hagent := (acceptedAsNode_iff.1 hn).1
    rw [unmarked_of_accepted hj hu] at hagent
    cases hagent
  · obtain ⟨userId, id, hissued, hrevoked⟩ | ⟨n, hissued, hdeleted⟩ := htaken
    · exact rejected_of_revoked hdb h h' hissued hrevoked
    · exact rejected_of_deleted hb hj hdb h h' hdistinct hissued hdeleted

/-! ## An API key that has been issued -/

/-- Session tokens that cannot be made up. -/
def signedApp : App :=
  { plainApp with
    jwtDecode := fun _ token => (parseDigits (token.drop 4)).bind fun id =>
      if token = plainApp.jwtEncode id 0 then some (uuidText id) else none }

def accountsOnly : Database := ⟨[.user sampleUser], by decide⟩

def namedKey : GenerateKeyRequest where
  name := "laptop".toList
  name_length := by decide

theorem bcryptExact_signedApp : BcryptExact signedApp := by
  intro salt text hash h text'
  obtain ⟨-, heq⟩ := Option.ite_none_right_eq_some.1 h
  cases heq
  simp [signedApp, plainApp]

theorem sessionTokens_signedApp : SessionTokens signedApp := by
  refine ⟨fun now text subject h => ?_, fun id expires => rfl, fun id expires => rfl⟩
  obtain ⟨id, -, h⟩ := Option.bind_eq_some_iff.1 h
  split at h
  · rename_i htext
    exact ⟨id, 0, htext⟩
  · cases h

/-- The node that is registered with the second token of the run below. -/
def newNode : RegisterNodeRequest where
  claimToken := "gpuclaim_1".toList
  gpuModel := "rtx".toList
  gpuMemoryGb := 48
  gpuCount := 2
  suggestedName := some "rack".toList
  claimToken_length := by decide +kernel
  gpuModel_length := by decide +kernel
  gpuMemoryGb_pos := by decide
  gpuCount_pos := by decide
  suggestedName_length := by decide +kernel

/-- The owner generates an API key and registers a node. -/
def issuingRun : List (Label Request) :=
  .spawn (.generateKey sampleCaller namedKey) :: runs 0 12 ++
    .spawn (.createClaimToken sampleCaller) :: runs 1 13 ++
    .spawn (.registerNode {} newNode) :: runs 2 15

/-- The owner revokes the key and deletes the node. -/
def takingBackRun : List (Label Request) :=
  .spawn (.revokeKey sampleCaller 0) :: runs 3 10 ++ .spawn (.deleteNode sampleCaller 2) :: runs 4 9

/-- The API key that a request has handed out. -/
def keyAnswered (th : Pending) : Option (Uuid × Str) :=
  match th.req, th.prog with
  | .generateKey _ _, .ret (.apiKeyGenerated key token) => some (key.id, token)
  | _, _ => none

/-- The agent token that a request has handed out. -/
def agentAnswered (th : Pending) : Option (Uuid × Str) :=
  match th.req, th.prog with
  | .registerNode _ _, .ret (.registered id token _) => some (id, token)
  | _, _ => none

theorem issuedKey_of_keyAnswered (h : Reach (controlPlane app) T (idle db clock) s) {i : Nat}
    {id : Uuid} (hi : s.threads[i]?.bind keyAnswered = some (id, token)) :
    ∃ userId, IssuedKey app s token userId id := by
  obtain ⟨th, hth, hout⟩ := Option.bind_eq_some_iff.1 hi
  unfold keyAnswered at hout
  split at hout
  · rename_i hreq hprog
    cases hout
    exact issuedKey_of_answer h hth hreq hprog
  · cases hout

theorem issuedAgent_of_agentAnswered (h : Reach (controlPlane app) T (idle db clock) s) {i : Nat}
    {id : Uuid} (hi : s.threads[i]?.bind agentAnswered = some (id, token)) :
    ∃ n, n.id = id ∧ IssuedAgent app s token n := by
  obtain ⟨th, hth, hout⟩ := Option.bind_eq_some_iff.1 hi
  unfold agentAnswered at hout
  split at hout
  · rename_i hreq hprog
    cases hout
    exact issuedAgent_of_answer h hth hreq hprog
  · cases hout

/-- The hash in a row that holds a token. -/
def Row.tokenHash : Row → Option Str
  | .apiKey k => some k.hash
  | .claimToken c => some c.tokenHash
  | .node n => n.agentTokenHash
  | _ => none

theorem hash_plainApp (salt : Nat) (text hash : Str)
    (h : plainApp.hashpw salt text = some hash) : hash = text :=
  (Option.some.inj (Option.ite_none_right_eq_some.1 h).2).symm

/-- Where a string is its own hash, a row holds no token but that. -/
theorem tokenHash_of_holds
    (happ : ∀ salt text hash, app.hashpw salt text = some hash → hash = text) {r : Row}
    (h : HoldsToken app r token) : r.tokenHash = some token := by
  have hdrawn : ∀ {marker prefixText hash : Str}, Drawn app marker prefixText hash token →
      some hash = some token := by
    rintro marker prefixText hash ⟨-, bytes, salt, -, hhash⟩
    exact congrArg some (happ salt token hash hhash)
  cases r with
  | apiKey k => exact hdrawn h
  | claimToken c => exact hdrawn h
  | node n =>
    obtain ⟨prefixText, hash, -, hhash, hn⟩ := h
    exact hhash.trans (hdrawn hn)
  | _ => cases h

/-- Where the rows with tokens have been inserted. -/
def tokensInserted (s : System) : List ((Nat × Nat) × Str) :=
  s.threads.zipIdx.flatMap fun (th, i) => th.ses.past.zipIdx.flatMap fun (tx, m) =>
    (Sys.inserted tx).filterMap fun r => r.tokenHash.map fun x => ((i, m), x)

theorem mem_tokensInserted {i m : Nat} {r : Row} (h : s.Inserted i m r)
    (hr : r.tokenHash = some token) : ((i, m), token) ∈ tokensInserted s := by
  obtain ⟨th, tx, hi, hm, hw⟩ := h
  refine List.mem_flatMap.2 ⟨(th, i), List.mk_mem_zipIdx_iff_getElem?.2 hi, ?_⟩
  refine List.mem_flatMap.2 ⟨(tx, m), List.mk_mem_zipIdx_iff_getElem?.2 hm, ?_⟩
  exact List.mem_filterMap.2 ⟨r, mem_inserted.2 hw, by rw [hr]; rfl⟩

theorem tokensDistinct_of_inserted
    (happ : ∀ salt text hash, app.hashpw salt text = some hash → hash = text)
    (h : ∀ a ∈ tokensInserted s, ∀ b ∈ tokensInserted s, a.2 = b.2 → a.1 = b.1) :
    TokensDistinct app s := by
  intro i m r i' m' r' token hins hins' hholds hholds'
  have hmem := mem_tokensInserted hins (tokenHash_of_holds happ hholds)
  have hmem' := mem_tokensInserted hins' (tokenHash_of_holds happ hholds')
  exact Prod.mk.inj (h _ hmem _ hmem' rfl)

/-- A program that comes to a value comes to some value. -/
theorem exists_ok_of_isOk {α β : Type} {x : Except ApiError α × β} (h : x.1.isOk = true) :
    ∃ a w, x = (.ok a, w) := by
  obtain ⟨e | a, w⟩ := x
  · cases h
  · exact ⟨a, w, rfl⟩

/-- The key is there and has been revoked, as a check. -/
def keyRevoked (db : Database) (id : Uuid) : Bool :=
  db.rows.any fun r =>
    match r with
    | .apiKey k => decide (k.id = id) && k.revokedAt.isSome
    | _ => false

theorem revokedKey_of_check {id : Uuid} (h : keyRevoked db id = true) : RevokedKey db id := by
  obtain ⟨r, hr, h⟩ := List.any_eq_true.1 h
  split at h
  · rename_i k
    rw [Bool.and_eq_true, decide_eq_true_eq, Option.isSome_iff_ne_none] at h
    exact ⟨k, hr, h⟩
  · cases h

theorem credentials_identify_at_takingBackRun :
    ∃ s₁ s₂, Reach (controlPlane signedApp) anyTerms (idle accountsOnly 0) s₁ ∧
      Reach (controlPlane signedApp) anyTerms s₁ s₂ ∧
      (∃ u, AcceptedByKey signedApp s₁.db "gpuk_0".toList u) ∧
      (∃ n, AcceptedAsNode signedApp s₁.db "gpuagent_2".toList n) ∧
      TakenBack signedApp s₂ "gpuk_0".toList ∧ TakenBack signedApp s₂ "gpuagent_2".toList ∧
      Rejected signedApp s₂.db "gpuk_0".toList ∧ Rejected signedApp s₂.db "gpuagent_2".toList := by
  obtain ⟨s₁, h₁, hrest⟩ := Option.bind_eq_some_iff.1 (show
    (runFrom (controlPlane signedApp) (idle accountsOnly 0) issuingRun).bind (fun s₁ =>
      (runFrom (controlPlane signedApp) s₁ takingBackRun).map fun s₂ =>
        ([((currentUser signedApp (some "gpuk_0".toList)).alone .database
            ({ db := s₁.db, moments := fun _ => ⟨0, 0, 0⟩ } : Scene)).1.isOk,
          ((currentNode signedApp (some "gpuagent_2".toList)).alone .database
            ({ db := s₁.db, moments := fun _ => ⟨0, 0, 0⟩ } : Scene)).1.isOk,
          keyRevoked s₂.db 0, (s₂.db.node 2).isNone,
          decide (∀ a ∈ tokensInserted s₂, ∀ b ∈ tokensInserted s₂, a.2 = b.2 → a.1 = b.1)],
          s₂.threads[0]?.bind keyAnswered, s₂.threads[2]?.bind agentAnswered)) =
      some ([true, true, true, true, true], some (0, "gpuk_0".toList),
        some (2, "gpuagent_2".toList)) by decide +kernel)
  obtain ⟨s₂, h₂, hfacts⟩ := Option.map_eq_some_iff.1 hrest
  simp only [Prod.mk.injEq, List.cons.injEq, and_true, decide_eq_true_eq,
    Option.isNone_iff_eq_none] at hfacts
  obtain ⟨⟨huser, hnode, hrevoked, hdeleted, hdistinct⟩, hkey, hagent⟩ := hfacts
  have hr₁ := Reach.of_runFrom h₁
  have hr₂ := Reach.of_runFrom h₂
  have hr := hr₁.trans hr₂
  have hdb : NoTokens accountsOnly := by
    intro r hr
    rw [List.mem_singleton.1 hr]
    exact id
  obtain ⟨userId, hkeyIssued⟩ := issuedKey_of_keyAnswered hr hkey
  obtain ⟨n, hid, hagentIssued⟩ := issuedAgent_of_agentAnswered hr hagent
  have hkeyBack : TakenBack signedApp s₂ "gpuk_0".toList :=
    Or.inl ⟨userId, 0, hkeyIssued, revokedKey_of_check hrevoked⟩
  have hagentBack : TakenBack signedApp s₂ "gpuagent_2".toList :=
    Or.inr ⟨n, hagentIssued, by rw [hid]; exact hdeleted⟩
  have hident := credentials_identify bcryptExact_signedApp sessionTokens_signedApp hdb hr
  have hlast : TokensDistinct signedApp s₂ := tokensDistinct_of_inserted hash_plainApp hdistinct
  obtain ⟨-, -, -, -, -, hkeyRejected⟩ := hident "gpuk_0".toList
  obtain ⟨-, -, -, -, -, hagentRejected⟩ := hident "gpuagent_2".toList
  obtain ⟨u, w, hu⟩ := exists_ok_of_isOk huser
  obtain ⟨n', w', hn'⟩ := exists_ok_of_isOk hnode
  exact ⟨s₁, s₂, hr₁, hr₂, ⟨u, by decide +kernel, _, w, hu⟩, ⟨n', _, w', hn'⟩, hkeyBack,
    hagentBack, hkeyRejected hkeyBack s₂ Reach.refl hlast,
    hagentRejected hagentBack s₂ Reach.refl hlast⟩

end GpuNetwork
