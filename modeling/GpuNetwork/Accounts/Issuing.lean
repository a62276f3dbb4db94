import GpuNetwork.Accounts.Credentials

/-!
# Issuing

Of a token that is drawn, the first twelve characters are unique in its table.  The marker
takes nine of them from claim tokens and agent tokens, and five from API keys; the rest are
all that tells two tokens apart there.

* `Row.claimPrefix`, `Row.keyPrefix`, `Row.agentPrefix`, `PrefixFree` — the unique columns.
* `leads_createClaimToken`, `leads_generateKey`, `leads_registerNode` — when the requests go
  through.
* `issued_iff` — a token is issued if its lookup prefix is free, and not otherwise.
-/

namespace GpuNetwork

open ReadCommitted ReadCommitted.Spec

variable {app : App} {db : Database} {token : Str}

/-! ## Unique columns -/

def Row.claimPrefix : Row → Option Str
  | .claimToken c => some c.lookupPrefix
  | _ => none

def Row.keyPrefix : Row → Option Str
  | .apiKey k => some k.lookupPrefix
  | _ => none

def Row.agentPrefix : Row → Option Str
  | .node n => n.agentTokenPrefix
  | _ => none

/-- No row has the lookup prefix of the token in the column. -/
def PrefixFree (column : Row → Option Str) (db : Database) (token : Str) : Prop :=
  ∀ r ∈ db.rows, column r ≠ some (lookupPrefix token)

theorem clash_claimToken_iff {x : Row} {c : ClaimToken} :
    x.clash (.claimToken c) = false ↔ x.claimPrefix ≠ some c.lookupPrefix := by
  cases x <;> simp [Row.clash, Row.claimPrefix]

theorem clash_apiKey_iff {x : Row} {k : ApiKey} :
    x.clash (.apiKey k) = false ↔ x.keyPrefix ≠ some k.lookupPrefix := by
  cases x <;> simp [Row.clash, Row.keyPrefix]

theorem clash_node_iff {x : Row} {n : Node} {p : Str} (h : n.agentTokenPrefix = some p) :
    x.clash (.node n) = false ↔ x.agentPrefix ≠ some p := by
  cases x with
  | node m =>
    simp only [Row.clash, Row.agentPrefix, h]
    cases m.agentTokenPrefix <;> simp
  | _ => simp [Row.clash, Row.agentPrefix]

/-! ## Statements -/

section Rules

variable {w w' : Scene} {α : Type} {Q : α → Scene → Prop} {E : Scene → Prop}

/-- A token is drawn, and hashed. -/
theorem leads_drawToken {marker : Str} {Q : Str × Str × Str → Scene → Prop}
    (hhash : (app.hashpw (w.moments 1).pick
      (marker ++ app.tokenUrlsafe (w.moments 0).pick)).isSome)
    (h : ∀ hash w', w.Same w' → (∀ k, w'.moments k = w.moments (k + 2)) →
      Drawn app marker (lookupPrefix (marker ++ app.tokenUrlsafe (w.moments 0).pick)) hash
        (marker ++ app.tokenUrlsafe (w.moments 0).pick) →
      Q (marker ++ app.tokenUrlsafe (w.moments 0).pick,
        lookupPrefix (marker ++ app.tokenUrlsafe (w.moments 0).pick), hash) w') :
    (generateToken app marker).Leads .database w Q E := by
  obtain ⟨hash, hhash⟩ := Option.isSome_iff_exists.1 hhash
  refine leads_bind (leads_random (leads_ret (leads_bind (leads_random (leads_ret
    (leads_bind ?_))))))
  show Prog.Leads ApiError.database (orRaise (app.hashpw (w.moments 1).pick
    (marker ++ app.tokenUrlsafe (w.moments 0).pick))) _ _ _
  rw [hhash]
  exact h hash _ (w.same_next.trans (World.same_next _)) (fun _ => rfl) ⟨rfl, _, _, rfl, hhash⟩

theorem present_user {view : Database} {id : Uuid} (h : (view.user id).isSome) :
    present view [Key.user id] = true := by
  obtain ⟨u, hu⟩ := Option.isSome_iff_exists.1 h
  simp [present, Db.get_user_iff.2 hu]

/-- A row under a drawn identifier goes in if the identifier is free and it clashes with none,
in a transaction that has written nothing. -/
theorem leads_createRow {β : Type} (row : Uuid → Time → Row) {value : Uuid → Time → β}
    {Q : β → Scene → Prop} (hdb : w.db = db) (hwrites : w.ses.tx.writes = [])
    (hrefs : ∀ t, present db ((row (w.moments 0).pick t).refs.map Prod.snd) = true)
    (hE : ∀ t, storable (row (w.moments 0).pick t) = false ∨
      occupied db (row (w.moments 0).pick t) = true → ∀ w', E w')
    (h : ∀ t w', storable (row (w.moments 0).pick t) = true →
      occupied db (row (w.moments 0).pick t) = false →
      w'.db = db → w'.ses.tx.writes = [.insert (row (w.moments 0).pick t)] →
      (∀ k, w'.moments k = w.moments (k + 3)) → Q (value (w.moments 0).pick t) w') :
    (do
      let id ← uuid4
      let createdAt ← .exec .txTime
      .exec (.insert (row id createdAt))
      pure (value id createdAt) : Handler β).Leads .database w Q E := by
  subst hdb
  have hview := Tx.view_of_no_writes hwrites w.db
  refine leads_bind (leads_random (leads_ret (leads_bind (leads_txTime (leads_ret (leads_bind
    (leads_insert_cases ?_ ?_ ?_)))))))
  · exact (congrArg (fun d => present d _) hview).trans (hrefs _)
  · rintro (hstore | hocc)
    · exact hE _ (Or.inl hstore) _
    · exact hE _ (Or.inr ((congrArg (fun d => occupied d _) hview).symm.trans hocc)) _
  · intro hstore hocc
    refine leads_ret (h _ _ hstore ((congrArg (fun d => occupied d _) hview).symm.trans hocc) rfl ?_
      fun _ => rfl)
    exact (congrArg (· ++ _) hwrites).trans (List.nil_append _)

/-- An audit row can be stored if its data can. -/
theorem storable_auditLog {a : AuditLog} (client : Client) (hip : a.ipAddress = client.ipAddress)
    (hagent : a.userAgent = client.userAgent) (hdata : a.eventData.texts.all plainText = true) :
    storable (Row.auditLog a) = true := by
  show (true && (a.ipAddress.toList ++ a.userAgent.toList ++ a.eventData.texts).all
    plainText) = true
  rw [hip, hagent, List.all_append, client.plain, hdata]
  rfl

/-- An audit row goes in if its identifier is free. -/
theorem leads_auditRow {event : Event} {userId : Uuid} {data : EventData} {client : Client}
    {Q : Unit → Scene → Prop} (hdata : data.texts.all plainText = true)
    (huser : ((w.ses.tx.view w.db).user userId).isSome)
    (hE : (w.ses.tx.view w.db).get (.auditLog (w.moments 0).pick) ≠ none → ∀ w', E w')
    (h : ∀ a w', a.id = (w.moments 0).pick →
      (w.ses.tx.view w.db).get (.auditLog (w.moments 0).pick) = none →
      w.Adds w' [.insert (.auditLog a)] → Q () w') :
    (createAudit event (some userId) data client).Leads .database w Q E := by
  refine leads_bind (leads_random (leads_ret (leads_bind (leads_txTime (leads_ret
    (leads_insert_cases (present_user huser) (fun hfail => ?_) fun _ hocc => ?_))))))
  · refine hE (fun hnone => ?_) _
    rcases hfail with hstore | hocc
    · exact Bool.false_ne_true (hstore.symm.trans (storable_auditLog client rfl rfl hdata))
    · rw [occupied_eq_false_iff.2 ⟨hnone, fun x _ => by cases x <;> rfl⟩] at hocc
      cases hocc
  · exact h _ _ rfl (occupied_eq_false_iff.1 hocc).1 ⟨rfl, rfl, rfl⟩

theorem leads_refresh_of {k : Key} {r : Row} {Q : Row → Scene → Prop}
    (hr : (w.ses.tx.view w.db).get k = some r) (hQ : ∀ w', w.Same w' → Q r w') :
    (refresh k).Leads .database w Q E := by
  refine leads_bind (leads_select_of (o := some r) ?_ ?_)
  · rw [pickRow_byKey, hr]
  · exact hQ _ (w.same_reads _)

end Rules

/-! ## The handlers -/

/-- A new row of the store holds the token. -/
def Holds (app : App) (db db' : Database) (token : Str) : Prop :=
  ∃ r, r ∉ db.rows ∧ r ∈ db'.rows ∧ HoldsToken app r token

/-- The row that goes in first is there after the commit. -/
theorem holds_of_commit {tx : Transaction} {r : Row} {rest : List (Write Row Key)}
    (hw : tx.writes = .insert r :: rest) (hrest : ∀ v ∈ rest, v.target ≠ r.key)
    (hnone : db.get r.key = none) (h : HoldsToken app r token) :
    Holds app db (tx.view db) token := by
  refine ⟨r, fun hr => ?_, ?_, h⟩
  · have hget := Db.get_of_mem hr
    rw [show Schema.key r = r.key from rfl, hnone] at hget
    cases hget
  · refine Db.mem_of_get (k := r.key) ?_
    rw [get_view_of_first hw hrest, hnone]
    exact if_pos rfl

section Recorded

variable {w : Scene} {α : Type} {Q : α → Scene → Prop} {E : Scene → Prop}

/-- A new row is recorded and committed, if the identifier of its audit row is free. -/
theorem leads_recorded (rest : List (Write Row Key)) {event : Event} {userId : Uuid}
    {data : EventData} {client : Client} {r : Row} {x : Handler α} (hdb : w.db = db)
    (hwrites : w.ses.tx.writes = .insert r :: rest) (hrest : ∀ v ∈ rest, v.target ≠ r.key)
    (haside : ∀ v ∈ w.ses.tx.writes, ∀ id, v.target ≠ .auditLog id ∧ v.target ≠ .user id)
    (hnone : db.get r.key = none) (hholds : HoldsToken app r token)
    (huser : (db.user userId).isSome) (hdata : data.texts.all plainText = true)
    (hE : db.get (.auditLog (w.moments 0).pick) ≠ none → ∀ w', E w')
    (h : ∀ w', db.get (.auditLog (w.moments 0).pick) = none → Holds app db w'.db token →
      (w'.ses.tx.view w'.db).get r.key = some r → x.Leads .database w' Q E) :
    (do
      createAudit event (some userId) data client
      commit
      x : Handler α).Leads .database w Q E := by
  subst hdb
  have hget : ∀ id, (w.ses.tx.view w.db).get (.auditLog id) = w.db.get (.auditLog id) :=
    fun id => Tx.view_get (fun v hv => (haside v hv id).1) w.db
  have huser' : ((w.ses.tx.view w.db).user userId).isSome := by
    rwa [Db.user_congr (Tx.view_get (fun v hv => (haside v hv userId).2) w.db)]
  refine leads_bind (leads_auditRow hdata huser' (fun hne => ?_) fun a w₁ hid hfree hadds => ?_)
  · rw [hget] at hne
    exact hE hne
  · have hw₁ : w₁.ses.tx.writes = .insert r :: (rest ++ [.insert (.auditLog a)]) := by
      rw [hadds.writes, hwrites, List.cons_append]
    have hrest₁ : ∀ v ∈ rest ++ [.insert (.auditLog a)], v.target ≠ r.key := by
      intro v hv
      rcases List.mem_append.1 hv with hv | hv
      · exact hrest v hv
      · rw [List.mem_singleton.1 hv]
        exact fun he => (haside (.insert r) (by rw [hwrites]; exact List.mem_cons_self ..) a.id).1
          he.symm
    refine leads_bind (leads_commitTx fun w₂ hdb₂ _ htx₂ => h w₂ (hget _ ▸ hfree) ?_ ?_)
    · rw [hdb₂, hadds.db]
      exact holds_of_commit hw₁ hrest₁ hnone hholds
    · rw [htx₂, Tx.view_of_no_writes rfl, hdb₂, hadds.db, get_view_of_first hw₁ hrest₁, hnone]
      exact if_pos rfl

end Recorded

section Handlers

variable {moments : Nat → Moment} {caller : Caller} {user : User} {w : Scene}

/-- `create_claim_token`, by a host. -/
theorem leads_createClaimToken
    (hhash : (app.hashpw (moments 3).pick
      (claimTokenPrefix ++ app.tokenUrlsafe (moments 2).pick)).isSome)
    (hcaller : (currentUser app caller.bearer).alone .database ({ db, moments } : Scene) =
      (.ok user, w)) (hhost : user.canHost = true)
    (htoken : token = claimTokenPrefix ++ app.tokenUrlsafe (moments 2).pick) :
    (createClaimToken app caller).Leads .database ({ db, moments } : Scene)
      (fun _ w' => (PrefixFree Row.claimPrefix db token ∧
        db.get (.claimToken (moments 5).pick) = none ∧
        db.get (.auditLog (moments 8).pick) = none) ∧ Holds app db w'.db token)
      (fun _ => ¬ (PrefixFree Row.claimPrefix db token ∧
        db.get (.claimToken (moments 5).pick) = none ∧
        db.get (.auditLog (moments 8).pick) = none)) := by
  subst htoken
  obtain ⟨hsame, hshift, hstored⟩ := caller_of_alone hcaller
  refine leads_bind (leads_of_ok hcaller ?_)
  rw [if_pos hhost]
  refine leads_bind (leads_drawToken (by rw [hshift, hshift]; exact hhash)
    fun hash w₁ hsame₁ hshift₁ hdrawn => ?_)
  have hmoments : ∀ k, w₁.moments k = moments (k + 4) := fun k => by rw [hshift₁, hshift]
  have hdb₁ : w₁.db = db := (hsame.trans hsame₁).db
  have hw₁ : w₁.ses.tx.writes = [] := (hsame.trans hsame₁).writes
  have hclaim : (moments 5).pick = (w₁.moments 1).pick := by rw [hmoments]
  have haudit : (moments 8).pick = (w₁.moments 4).pick := by rw [hmoments]
  rw [hshift] at hdrawn ⊢
  rw [hclaim, haudit]
  obtain ⟨hlookup, hhashed⟩ := hdrawn.plain (by decide)
  refine leads_bind (leads_now (leads_ret (leads_bind (leads_createRow (fun id t =>
    .claimToken { id, userId := user.id, lookupPrefix := _, tokenHash := hash, expiresAt := _,
                  createdAt := t }) hdb₁ hw₁ (fun t => ?_) (fun t => ?_)
    fun t w₂ _ hocc hdb₂ hw₂ hshift₂ => ?_))))
  · exact present_user (by rw [hstored]; rfl)
  · rintro (hstore | hocc) w' ⟨hfree, hnone, -⟩
    · simp [storable, Schema.fits, Row.fits, Schema.texts, Row.texts, hlookup, hhashed] at hstore
    · rw [occupied_eq_false_iff.2 ⟨hnone, fun x hx => clash_claimToken_iff.2 (hfree x hx)⟩] at hocc
      cases hocc
  · obtain ⟨hnone, hclash⟩ := occupied_eq_false_iff.1 hocc
    refine leads_recorded [] hdb₂ hw₂ (by simp)
      (by simp [hw₂, Write.target, Row.key]) hnone hdrawn (by rw [hstored]; rfl)
      (by simp [EventData.texts, hlookup]) (fun hne w' hC => ?_) fun w' hfree hnew hstored' => ?_
    · rw [hshift₂] at hne
      exact hne hC.2.2
    · rw [hshift₂] at hfree
      refine leads_bind (leads_refresh_of hstored' fun w₃ hsame₃ => ?_)
      refine ⟨⟨fun x hx => clash_claimToken_iff.1 (hclash x hx), hnone, hfree⟩, ?_⟩
      rw [hsame₃.db]
      exact hnew

/-- `ApiKeyService.generate`, by an active user. -/
theorem leads_generateKey {p : GenerateKeyRequest}
    (hhash : (app.hashpw (moments 3).pick
      (apiKeyPrefix ++ app.tokenUrlsafe (moments 2).pick)).isSome)
    (hcaller : (currentUser app caller.bearer).alone .database ({ db, moments } : Scene) =
      (.ok user, w)) (hactive : user.status = .active)
    (htoken : token = apiKeyPrefix ++ app.tokenUrlsafe (moments 2).pick) :
    (generateKey app caller p).Leads .database ({ db, moments } : Scene)
      (fun _ w' => (PrefixFree Row.keyPrefix db token ∧
        db.get (.apiKey (moments 4).pick) = none ∧
        db.get (.auditLog (moments 7).pick) = none ∧ plainText p.name = true) ∧
        Holds app db w'.db token)
      (fun _ => ¬ (PrefixFree Row.keyPrefix db token ∧
        db.get (.apiKey (moments 4).pick) = none ∧
        db.get (.auditLog (moments 7).pick) = none ∧ plainText p.name = true)) := by
  subst htoken
  obtain ⟨hsame, hshift, hstored⟩ := caller_of_alone hcaller
  refine leads_bind (leads_of_ok hcaller ?_)
  rw [if_neg (not_not.2 hactive)]
  refine leads_bind (leads_drawToken (by rw [hshift, hshift]; exact hhash)
    fun hash w₁ hsame₁ hshift₁ hdrawn => ?_)
  have hmoments : ∀ k, w₁.moments k = moments (k + 4) := fun k => by rw [hshift₁, hshift]
  have hdb₁ : w₁.db = db := (hsame.trans hsame₁).db
  have hw₁ : w₁.ses.tx.writes = [] := (hsame.trans hsame₁).writes
  have hkey : (moments 4).pick = (w₁.moments 0).pick := by rw [hmoments]
  have haudit : (moments 7).pick = (w₁.moments 3).pick := by rw [hmoments]
  rw [hshift] at hdrawn ⊢
  rw [hkey, haudit]
  obtain ⟨hlookup, hhashed⟩ := hdrawn.plain (by decide)
  refine leads_bind (leads_createRow (fun id t =>
    .apiKey { id, userId := user.id, name := p.name, lookupPrefix := _, hash := hash,
              createdAt := t }) hdb₁ hw₁ (fun t => ?_) (fun t => ?_)
    fun t w₂ hstore hocc hdb₂ hw₂ hshift₂ => ?_)
  · exact present_user (by rw [hstored]; rfl)
  · rintro (hstore | hocc) w' ⟨hfree, hnone, -, hname⟩
    · simp [storable, Schema.fits, Row.fits, Schema.texts, Row.texts, hlookup, hhashed, hname]
        at hstore
    · rw [occupied_eq_false_iff.2 ⟨hnone, fun x hx => clash_apiKey_iff.2 (hfree x hx)⟩] at hocc
      cases hocc
  · obtain ⟨hnone, hclash⟩ := occupied_eq_false_iff.1 hocc
    have hname : plainText p.name = true :=
      List.all_eq_true.1 (Bool.and_eq_true_iff.1 hstore).2 _ (List.mem_cons_self ..)
    refine leads_recorded [] hdb₂ hw₂ (by simp)
      (by simp [hw₂, Write.target, Row.key]) hnone hdrawn (by rw [hstored]; rfl)
      (by simp [EventData.texts, hlookup, hname]) (fun hne w' hC => ?_)
      fun w' hfree hnew hstored' => ?_
    · rw [hshift₂] at hne
      exact hne hC.2.2.1
    · rw [hshift₂] at hfree
      refine leads_bind (leads_refresh_of hstored' fun w₃ hsame₃ => ?_)
      refine ⟨⟨fun x hx => clash_apiKey_iff.1 (hclash x hx), hnone, hfree, hname⟩, ?_⟩
      rw [hsame₃.db]
      exact hnew

/-- The claim token that is shown can still be consumed. -/
structure ClaimOpen (app : App) (db : Database) (p : RegisterNodeRequest) (now : Time)
    (c : ClaimToken) : Prop where
  stored : .claimToken c ∈ db.rows
  lookup : c.lookupPrefix = lookupPrefix p.claimToken
  check : app.checkpw p.claimToken c.tokenHash = some true
  unused : c.consumedAt = none
  unexpired : now < c.expiresAt

/-- A default name takes one random number. -/
def nameDraws : Option Str → Nat
  | some (_ :: _) => 0
  | _ => 1

theorem plainText_toDigits_hex (n : Nat) : plainText (Nat.toDigits 16 n) = true := by
  have hdigit : ∀ d < 16, Nat.digitChar d ≠ '\x00' := by decide
  induction n using Nat.strong_induction_on with
  | _ n ih =>
    rw [plainText_iff, Nat.toDigits_eq_if (by omega)]
    split
    · rename_i hlt
      rw [List.mem_singleton]
      exact fun he => hdigit n hlt he.symm
    · rw [List.mem_append, List.mem_singleton]
      rintro (hmem | he)
      · exact plainText_iff.1 (ih (n / 16) (by omega)) hmem
      · exact hdigit (n % 16) (Nat.mod_lt _ (by omega)) he.symm

/-- A default name has no NUL. -/
theorem plainText_defaultName (id : Uuid) :
    plainText ("node-".toList ++ (uuidHex id).take 6) = true := by
  refine plainText_append (by decide) (plainText_take _ ?_)
  rw [uuidHex, List.leftpad]
  exact plainText_append (plainText_iff.2 (by simp)) (plainText_toDigits_hex id)

/-- A name is chosen, which has a NUL only if the one that is suggested has. -/
theorem leads_nodeName {w : Scene} {suggested : Option Str} {Q : Str → Scene → Prop}
    {E : Scene → Prop}
    (h : ∀ name w', w.Same w' → (∀ k, w'.moments k = w.moments (k + nameDraws suggested)) →
      plainText name = suggested.all plainText → Q name w') :
    (nodeName suggested).Leads .database w Q E := by
  match suggested with
  | some (c :: cs) => exact h _ w (World.Same.refl w) (fun _ => rfl) rfl
  | some [] =>
    exact leads_bind (leads_random (leads_ret (h _ _ w.same_next (fun _ => rfl)
      (plainText_defaultName _))))
  | none =>
    exact leads_bind (leads_random (leads_ret (h _ _ w.same_next (fun _ => rfl)
      (plainText_defaultName _))))

/-- The claim token is accepted. -/
theorem leads_checkClaimToken {w : Scene} {p : RegisterNodeRequest} {c : ClaimToken}
    {Q : ClaimToken → Scene → Prop} {E : Scene → Prop}
    (hopen : ClaimOpen app db p (w.moments 0).now c)
    (h : ∀ w', w.Same w' → (∀ k, w'.moments k = w.moments (k + 1)) → Q c w') :
    (checkClaimToken app p.claimToken (some c)).Leads .database w Q E := by
  unfold checkClaimToken
  refine leads_bind ?_
  rw [hopen.check]
  show Prog.Leads ApiError.database (if c.consumedAt.isSome = true then
      .throw (.claimTokenInvalid .alreadyUsed)
    else do
      let now ← utcNow
      if c.expiresAt ≤ now then .throw (.claimTokenInvalid .expired) else pure c :
        Handler ClaimToken) _ _ _
  rw [if_neg (by simp [hopen.unused])]
  refine leads_bind (leads_now (leads_ret ?_))
  rw [if_neg (not_le.2 hopen.unexpired)]
  exact h _ w.same_next fun _ => rfl

/-- The claim token is consumed. -/
theorem leads_markConsumed {w : Scene} {c : ClaimToken} {Q : Unit → Scene → Prop}
    {E : Scene → Prop} (hstored : (w.ses.tx.view w.db).get (.claimToken c.id) =
      some (.claimToken c)) (hunused : c.consumedAt = none)
    (h : ∀ new w', w'.db = w.db →
      w'.ses.tx.writes = w.ses.tx.writes ++ [.update (.claimToken c) new] →
      (∀ k, w'.moments k = w.moments (k + 2)) → Q () w') :
    (markConsumed c).Leads .database w Q E := by
  refine leads_bind (leads_now (leads_ret ?_))
  have hne : ∀ now, Row.claimToken { c with consumedAt := some now } ≠ .claimToken c := by
    intro now he
    have hcons := congrArg ClaimToken.consumedAt (Row.claimToken.inj he)
    rw [hunused] at hcons
    cases hcons
  unfold flush
  rw [if_neg (hne _)]
  refine leads_bind (leads_update_of hstored (by exact storableOver_of_texts rfl rfl) ?_
    (leads_ret ?_))
  · simp [newRefs, Schema.refs, Row.refs]
  · exact h _ _ rfl rfl fun _ => rfl

/-- `register_node`, with an open claim token. -/
theorem leads_registerNode {client : Client} {p : RegisterNodeRequest} {c : ClaimToken}
    (hhash : (app.hashpw (moments 3).pick
      (agentTokenPrefix ++ app.tokenUrlsafe (moments 2).pick)).isSome)
    (hfound : pickRow (moments 0).pick (matching db (.claimTokenByPrefix
      (lookupPrefix p.claimToken))) = some (.claimToken c))
    (hopen : ClaimOpen app db p (moments 1).now c) (howner : (db.user c.userId).isSome)
    (hclaimed : plainText c.lookupPrefix = true)
    (htoken : token = agentTokenPrefix ++ app.tokenUrlsafe (moments 2).pick) :
    (registerNode app client p).Leads .database ({ db, moments } : Scene)
      (fun _ w' => (PrefixFree Row.agentPrefix db token ∧
        db.get (.node (moments (5 + nameDraws p.suggestedName)).pick) = none ∧
        db.get (.auditLog (moments (10 + nameDraws p.suggestedName)).pick) = none ∧
        fitsInteger p.gpuMemoryGb = true ∧ fitsInteger p.gpuCount = true ∧
        plainText p.gpuModel = true ∧ p.suggestedName.all plainText = true) ∧
        Holds app db w'.db token)
      (fun _ => ¬ (PrefixFree Row.agentPrefix db token ∧
        db.get (.node (moments (5 + nameDraws p.suggestedName)).pick) = none ∧
        db.get (.auditLog (moments (10 + nameDraws p.suggestedName)).pick) = none ∧
        fitsInteger p.gpuMemoryGb = true ∧ fitsInteger p.gpuCount = true ∧
        plainText p.gpuModel = true ∧ p.suggestedName.all plainText = true)) := by
  subst htoken
  refine leads_bind (leads_bind (leads_select_of hfound (leads_ret (leads_bind
    (leads_checkClaimToken hopen fun w hsame hshift => ?_)))))
  refine leads_bind (leads_drawToken (by rw [hshift, hshift]; exact hhash)
    fun hash w₁ hsame₁ hshift₁ hdrawn => ?_)
  refine leads_bind (leads_nodeName fun name w₂ hsame₂ hshift₂ hplain => leads_bind
    (leads_now (leads_ret ?_)))
  have hreads : World.Same ({ db, moments } : Scene) w := (World.same_reads _ _).trans hsame
  have hmoments : ∀ k, w₂.moments k = moments (k + nameDraws p.suggestedName + 4) := by
    intro k
    rw [hshift₂, hshift₁, hshift]
    rfl
  have hdb₂ : w₂.db = db := ((hreads.trans hsame₁).trans hsame₂).db
  have hw₂ : w₂.ses.tx.writes = [] := ((hreads.trans hsame₁).trans hsame₂).writes
  have hnode : moments (5 + nameDraws p.suggestedName) = w₂.moments 1 := by
    rw [hmoments]
    congr 1
    omega
  have haudit : moments (10 + nameDraws p.suggestedName) = w₂.moments 6 := by
    rw [hmoments]
    congr 1
    omega
  rw [hshift] at hdrawn ⊢
  rw [hnode, haudit, ← hplain]
  obtain ⟨hlookup, hhashed⟩ := hdrawn.plain (by decide)
  refine leads_bind (leads_createRow (fun id t =>
    .node { id, userId := c.userId, name := name, gpuModel := p.gpuModel,
            gpuMemoryGb := p.gpuMemoryGb, gpuCount := p.gpuCount, status := .online,
            lastSeenAt := _, agentTokenHash := some hash, agentTokenPrefix := some _,
            createdAt := t }) hdb₂ hw₂ (fun t => ?_) (fun t => ?_)
    fun t w₃ hstore hocc hdb₃ hw₃ hshift₃ => ?_)
  · exact present_user howner
  · rintro (hstore | hocc) w' ⟨hfree, hnone, -, hmemory, hcount, hmodel, hname⟩
    · simp [storable, Schema.fits, Row.fits, Schema.texts, Row.texts, hlookup, hhashed, hmemory,
        hcount, hmodel, hname] at hstore
    · rw [occupied_eq_false_iff.2 ⟨hnone, fun x hx => (clash_node_iff rfl).2 (hfree x hx)⟩] at hocc
      cases hocc
  · obtain ⟨hnone, hclash⟩ := occupied_eq_false_iff.1 hocc
    obtain ⟨hfits, htexts⟩ := Bool.and_eq_true_iff.1 hstore
    obtain ⟨hmemory, hcount⟩ := Bool.and_eq_true_iff.1 hfits
    have hname : plainText name = true :=
      List.all_eq_true.1 htexts _ (by simp [Schema.texts, Row.texts])
    have hmodel : plainText p.gpuModel = true :=
      List.all_eq_true.1 htexts _ (by simp [Schema.texts, Row.texts])
    have hclaim : (w₃.ses.tx.view w₃.db).get (.claimToken c.id) = some (.claimToken c) := by
      rw [hdb₃, Tx.view_get (by simp [hw₃, Write.target, Row.key])]
      exact Db.get_of_mem hopen.stored
    refine leads_bind (leads_markConsumed hclaim hopen.unused fun new w₄ hdb₄ hw₄ hshift₄ => ?_)
    rw [hw₃, List.singleton_append] at hw₄
    have hmoments₄ : ∀ k, w₄.moments k = w₂.moments (k + 6) := by
      intro k
      rw [hshift₄, hshift₃]
      rfl
    refine leads_recorded _ (hdb₄.trans hdb₃) hw₄ (by simp [Write.target, Row.key])
      (by simp [hw₄, Write.target, Row.key]) hnone ⟨_, hash, rfl, rfl, hdrawn⟩ howner
      (by simp [EventData.texts, hmodel, ← hopen.lookup, hclaimed]) (fun hne w' hC => ?_)
      fun w' hfree hnew hstored' => ?_
    · rw [hmoments₄] at hne
      exact hne hC.2.2.1
    · rw [hmoments₄] at hfree
      refine leads_bind (leads_bind (leads_refresh_of hstored' fun w₅ hsame₅ => leads_ret
        (leads_ret ?_)))
      refine ⟨⟨fun x hx => (clash_node_iff rfl).1 (hclash x hx), hnone, hfree, hmemory, hcount,
        hmodel, hname⟩, ?_⟩
      rw [hsame₅.db]
      exact hnew

end Handlers

/-! ## Claim tokens -/

theorem claims_of_may {req : Request} {c : ClaimToken} (h : req.may (.insert (.claimToken c))) :
    ∃ caller, req = .createClaimToken caller := by
  cases req with
  | createClaimToken caller => exact ⟨caller, rfl⟩
  | pushMetrics bearer id samples =>
    obtain ⟨g, hg⟩ := h
    cases hg
  | _ => cases h

/-- A claim token goes to an account that is there when it is committed. -/
theorem owner_of_insert {req : Request} {tx : Transaction}
    (h : (issuing app).Committing db req tx) {c : ClaimToken}
    (hc : .insert (.claimToken c) ∈ tx.writes) : (db.user c.userId).isSome := by
  obtain ⟨caller, rfl⟩ := claims_of_may (may_of_shape h.shape.1 _ hc)
  obtain ⟨u, c', a, token, ⟨wh, e, he, -, hget, -⟩, huser, -, hw⟩ := h.shape.2
  rw [hw] at hc
  obtain rfl : c = c' := by simpa using hc
  rw [huser]
  refine h.keeps he (I := fun d => (d.user u.id).isSome) (fun _ a b _ hrely ha => hrely _ ha) ?_
  rw [Db.get_user_iff.1 hget]
  rfl

/-- A claim token is stored with a lookup prefix that was drawn. -/
theorem plain_of_insert {req : Request} {tx : Transaction} (h : (issuing app).shape req tx)
    {c : ClaimToken} (hc : .insert (.claimToken c) ∈ tx.writes) :
    plainText c.lookupPrefix = true := by
  obtain ⟨caller, rfl⟩ := claims_of_may (may_of_shape h.1 _ hc)
  obtain ⟨u, c', a, token, -, -, hdrawn, hw⟩ := h.2
  rw [hw] at hc
  obtain rfl : c = c' := by simpa using hc
  exact (hdrawn.plain (by decide)).1

section Runs

variable {T : Terms Row Request ApiError Response} {clock : Time} {s : System}

/-- The owner of a claim token has an account. -/
theorem owner_of_claim (hdb : NoTokens db) (h : Reach (controlPlane app) T (idle db clock) s)
    {c : ClaimToken} (hc : .claimToken c ∈ s.db.rows) : (s.db.user c.userId).isSome := by
  have hC : (issuing app).Chronicle (controlPlane app) T (fun _ => True) fun _ tx d => ∀ c,
      .insert (.claimToken c) ∈ tx.writes → (d.user c.userId).isSome := by
    refine ⟨fun _ _ _ hs _ _ => issuing_kept hs, fun _ _ _ _ _ _ _ _ _ => trivial,
      fun _ _ _ _ _ _ _ hcom _ c hc => ?_, fun _ _ _ _ _ _ _ hcom _ req tx hG c hc => ?_⟩
    · exact usersStay_of_committing hcom.of_also _ (owner_of_insert hcom hc)
    · exact usersStay_of_committing hcom.of_also _ (hG c hc)
  obtain ⟨y, hy, hold | ⟨i, m, ⟨th, tx, hi, hm, hw⟩, -⟩⟩ := origin_since versions_credential h _ hc
  · obtain ⟨c₀, rfl, -⟩ := claimToken_of_credential hy
    exact absurd trivial (hdb _ hold)
  · obtain ⟨c₀, rfl, huser, -⟩ := claimToken_of_credential hy
    rw [← huser]
    exact (history (issuing_valid app) hC rfl trivial h).2.2 i th hi tx (List.mem_of_getElem? hm)
      c₀ hw

/-- The lookup prefix of a claim token has no NUL. -/
theorem plain_of_claim (hdb : NoTokens db) (h : Reach (controlPlane app) T (idle db clock) s)
    {c : ClaimToken} (hc : .claimToken c ∈ s.db.rows) : plainText c.lookupPrefix = true := by
  obtain ⟨y, hy, hold | ⟨i, m, ⟨th, tx, hi, hm, hw⟩, -⟩⟩ := origin_since versions_credential h _ hc
  · obtain ⟨c₀, rfl, -⟩ := claimToken_of_credential hy
    exact absurd trivial (hdb _ hold)
  · obtain ⟨c₀, rfl, -, hlookup⟩ := claimToken_of_credential hy
    rw [← hlookup]
    exact plain_of_insert ((issuing_ok rfl h).past i th hi tx (List.mem_of_getElem? hm)) hw

/-- An open claim token is the one that is found. -/
theorem found_of_open (hd : PrefixesDiffer db) {p : RegisterNodeRequest} {now : Time}
    {c : ClaimToken} (hopen : ClaimOpen app db p now c) (pick : Nat) :
    pickRow pick (matching db (.claimTokenByPrefix (lookupPrefix p.claimToken))) =
      some (.claimToken c) := by
  have hmem : Row.claimToken c ∈ matching db (.claimTokenByPrefix (lookupPrefix p.claimToken)) :=
    mem_matching.2 ⟨hopen.stored, decide_eq_true hopen.lookup⟩
  rcases pickRow_cases pick (matching db (.claimTokenByPrefix (lookupPrefix p.claimToken))) with
    ⟨-, hnil⟩ | ⟨r, hr, hpick⟩
  · rw [hnil] at hmem
    simp at hmem
  · rw [hpick]
    obtain ⟨hstored, hholds⟩ := mem_matching.1 hr
    cases r with
    | claimToken c' =>
      by_contra hne
      have hclash := hd _ hstored _ hopen.stored trivial trivial fun he => hne (by rw [he])
      rw [Row.clash, decide_eq_true ((of_decide_eq_true hholds).trans hopen.lookup.symm)] at hclash
      cases hclash
    | _ => cases hholds

/-- The request hands out the token, and commits a new row for it. -/
def Issued (app : App) (req : Request) (db : Database) (moments : Nat → Moment) (token : Str) :
    Prop :=
  ∃ response w, served app req db moments = (.ok response, w) ∧ Holds app db w.db token

/-- **A token is issued if its lookup prefix is free**, and so are the identifiers that are
drawn for its row and its audit row, and not otherwise. -/
theorem issued_iff (hhash : ∀ marker ∈ [apiKeyPrefix, claimTokenPrefix, agentTokenPrefix],
      ∀ salt bytes, (app.hashpw salt (marker ++ app.tokenUrlsafe bytes)).isSome)
    (hdb : NoTokens db) (h : Reach (controlPlane app) T (idle db clock) s)
    (moments : Nat → Moment) :
    (∀ caller user w token, (currentUser app caller.bearer).alone .database
        ({ db := s.db, moments } : Scene) = (.ok user, w) → user.canHost = true →
      token = claimTokenPrefix ++ app.tokenUrlsafe (moments 2).pick →
      (Issued app (.createClaimToken caller) s.db moments token ↔
        PrefixFree Row.claimPrefix s.db token ∧
        s.db.get (.claimToken (moments 5).pick) = none ∧
        s.db.get (.auditLog (moments 8).pick) = none)) ∧
    (∀ caller p user w token, (currentUser app caller.bearer).alone .database
        ({ db := s.db, moments } : Scene) = (.ok user, w) → user.status = .active →
      token = apiKeyPrefix ++ app.tokenUrlsafe (moments 2).pick →
      (Issued app (.generateKey caller p) s.db moments token ↔
        PrefixFree Row.keyPrefix s.db token ∧
        s.db.get (.apiKey (moments 4).pick) = none ∧
        s.db.get (.auditLog (moments 7).pick) = none ∧ plainText p.name = true)) ∧
    (∀ client p c token, ClaimOpen app s.db p (moments 1).now c →
      token = agentTokenPrefix ++ app.tokenUrlsafe (moments 2).pick →
      (Issued app (.registerNode client p) s.db moments token ↔
        PrefixFree Row.agentPrefix s.db token ∧
        s.db.get (.node (moments (5 + nameDraws p.suggestedName)).pick) = none ∧
        s.db.get (.auditLog (moments (10 + nameDraws p.suggestedName)).pick) = none ∧
        fitsInteger p.gpuMemoryGb = true ∧ fitsInteger p.gpuCount = true ∧
        plainText p.gpuModel = true ∧ p.suggestedName.all plainText = true)) := by
  have hd := prefixes_differ (prefixesDiffer_of_noTokens hdb) h
  refine ⟨fun caller user w token hcaller hhost htoken => ?_,
    fun caller p user w token hcaller hactive htoken => ?_,
    fun client p c token hopen htoken => ?_⟩
  · exact (leads_createClaimToken (hhash _ (by simp) _ _) hcaller hhost htoken).exists_ok_iff
  · exact (leads_generateKey (hhash _ (by simp) _ _) hcaller hactive htoken).exists_ok_iff
  · exact (leads_registerNode (hhash _ (by simp) _ _) (found_of_open hd hopen _) hopen
      (owner_of_claim hdb h hopen.stored) (plain_of_claim hdb h hopen.stored) htoken).exists_ok_iff

end Runs

/-! ## Two claim tokens with one lookup prefix -/

theorem noTokens_accountsOnly : NoTokens accountsOnly := by
  intro r hr
  rw [List.mem_singleton.1 hr]
  exact id

theorem issued_iff_at_first : Issued plainApp (.createClaimToken sampleCaller) accountsOnly
    (draws 1001) "gpuclaim_1001".toList := by
  obtain ⟨w, hcaller⟩ := caller_plainApp accountsOnly rfl 1001
  refine ((issued_iff hashes_plainApp noTokens_accountsOnly
    (Reach.refl (T := anyTerms) (s := idle accountsOnly 0)) (draws 1001)).1
    sampleCaller sampleUser w
    "gpuclaim_1001".toList hcaller rfl (by decide)).2 ⟨fun r hr => ?_, rfl, rfl⟩
  rw [List.mem_singleton.1 hr]
  exact Option.some_ne_none _ |>.symm

/-- The answer to a request that clashes with a row of the store. -/
def isUniqueViolation : Except ApiError Response → Bool
  | .error (.database .uniqueViolation) => true
  | _ => false

/-- A host draws `gpuclaim_1000` and then `gpuclaim_1001`. -/
def twoClaimTokens : List (Label Request) :=
  .spawn (.createClaimToken sampleCaller) :: List.replicate 13 (.run 0 1000)

/-- **A token that was never issued is refused**: of the two claim tokens the lookup prefix is
`gpuclaim_100`. -/
theorem fresh_claim_token_refused : ∃ s token,
    Reach (controlPlane plainApp) anyTerms (idle accountsOnly 0) s ∧
    (∃ w, (currentUser plainApp sampleCaller.bearer).alone .database
      ({ db := s.db, moments := draws 1001 } : Scene) = (.ok sampleUser, w)) ∧
    sampleUser.canHost = true ∧
    token = claimTokenPrefix ++ plainApp.tokenUrlsafe 1001 ∧
    (∀ i m r, s.Inserted i m r → ¬ HoldsToken plainApp r token) ∧
    isUniqueViolation
      (served plainApp (.createClaimToken sampleCaller) s.db (draws 1001)).1 = true ∧
    ¬ Issued plainApp (.createClaimToken sampleCaller) s.db (draws 1001) token := by
  have hcheck : (runFrom (controlPlane plainApp) (idle accountsOnly 0) twoClaimTokens).any
      (fun s => decide (s.db.user 1 = some sampleUser) &&
        (tokensInserted s).all (fun x => decide (x.2 ≠ "gpuclaim_1001".toList)) &&
        isUniqueViolation (served plainApp (.createClaimToken sampleCaller) s.db (draws 1001)).1) =
      true := by decide +kernel
  obtain ⟨s, hs, hcheck⟩ := (Option.any_eq_true _ _).1 hcheck
  simp only [Bool.and_eq_true, decide_eq_true_eq, List.all_eq_true] at hcheck
  obtain ⟨⟨huser, hnew⟩, hrefused⟩ := hcheck
  refine ⟨s, "gpuclaim_1001".toList, Reach.of_runFrom hs, caller_plainApp s.db huser 1001, rfl,
    by decide, fun i m r hins hr => ?_, hrefused, ?_⟩
  · exact hnew _ (mem_tokensInserted hins (tokenHash_of_holds hash_plainApp hr)) rfl
  · rintro ⟨response, w, hserved, -⟩
    rw [hserved] at hrefused
    cases hrefused

end GpuNetwork
