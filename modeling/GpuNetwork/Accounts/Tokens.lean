import GpuNetwork.Commits.Accounts
import GpuNetwork.Commits.Footprint
import GpuNetwork.Store.Unique

/-!
# Tokens

API keys, agent tokens and claim tokens are drawn at random under a marker, and stored as the
first twelve characters and a hash.

* `Drawn` — the columns of a row are those of a token.
* `Issues`, `issuing` — what the requests commit that issue and revoke tokens.
* `tokens_apart` — in no state do two rows have one lookup prefix.
-/

namespace GpuNetwork

open ReadCommitted ReadCommitted.Spec

variable {app : App} {db : Database} {req : Request} {tx : Transaction}

/-- The lookup prefix and the hash are those of a token that was drawn. -/
def Drawn (app : App) (marker prefixText hash token : Str) : Prop :=
  prefixText = lookupPrefix token ∧ ∃ bytes salt, token = marker ++ app.tokenUrlsafe bytes ∧
    app.hashpw salt token = some hash

/-- What is stored of a token that was drawn has no NUL. -/
theorem Drawn.plain {marker prefixText hash token : Str} (hmarker : plainText marker = true)
    (h : Drawn app marker prefixText hash token) :
    plainText prefixText = true ∧ plainText hash = true := by
  obtain ⟨rfl, bytes, salt, rfl, hhash⟩ := h
  exact ⟨plainText_take _ (plainText_append hmarker (app.tokenUrlsafe_plain bytes)),
    app.hashpw_plain salt _ hash hhash⟩

/-- What the requests commit that issue and revoke tokens. -/
def Issues (app : App) : Request → Transaction → Prop
  | .generateKey _ _, tx => ∃ u k a token, AsUser tx u ∧ k.userId = u.id ∧ k.revokedAt = none ∧
      Drawn app apiKeyPrefix k.lookupPrefix k.hash token ∧ tx.Fresh (.apiKey k.id) ∧
      tx.writes = [.insert (.apiKey k), .insert (.auditLog a)]
  | .revokeKey _ id, tx => ∃ k now a, k.id = id ∧ k.revokedAt = none ∧ tx.Found (.apiKey id) ∧
      tx.writes = [.update (.apiKey k) (.apiKey { k with revokedAt := some now }),
        .insert (.auditLog a)]
  | .createClaimToken _, tx => ∃ u c a token, AsUser tx u ∧ c.userId = u.id ∧
      Drawn app claimTokenPrefix c.lookupPrefix c.tokenHash token ∧
      tx.writes = [.insert (.claimToken c), .insert (.auditLog a)]
  | .registerNode _ _, tx => ∃ n c c' a token prefixText hash,
      n.agentTokenPrefix = some prefixText ∧ n.agentTokenHash = some hash ∧
      Drawn app agentTokenPrefix prefixText hash token ∧
      tx.writes = [.insert (.node n), .update (.claimToken c) (.claimToken c'),
        .insert (.auditLog a)]
  | _, _ => True

/-- The token that an answer hands out is that of the row that was committed. -/
def AnswersToken (app : App) : Request → Except ApiError Response → List Transaction → Prop
  | .generateKey _ _, .ok (.apiKeyGenerated key token), past => ∃ tx k, tx ∈ past ∧
      .insert (.apiKey k) ∈ tx.writes ∧ k.id = key.id ∧
      Drawn app apiKeyPrefix k.lookupPrefix k.hash token
  | .registerNode _ _, .ok (.registered id token _), past => ∃ tx n prefixText hash, tx ∈ past ∧
      .insert (.node n) ∈ tx.writes ∧ n.id = id ∧ n.agentTokenPrefix = some prefixText ∧
      n.agentTokenHash = some hash ∧ Drawn app agentTokenPrefix prefixText hash token
  | _, _, _ => True

/-- Accounts are not deleted. -/
def UsersStay (a b : Database) : Prop := ∀ id, (a.user id).isSome → (b.user id).isSome

/-- The accounts stay, as every commit of the platform leaves them. -/
def staying (app : App) : Spec Row Key Cond Request ApiError Response :=
  platform app (fun _ _ a b => UsersStay a b) True

/-- The specification of the platform with what is said about tokens. -/
def issuing (app : App) : Spec Row Key Cond Request ApiError Response :=
  (staying app).also (Issues app) (AnswersToken app)

/-! ## The handlers -/

section Handlers

variable {P : Spec Row Key Cond Request ApiError Response} {ses : Conn}

/-- A token that is drawn. -/
theorem wp_drawToken {marker : Str} {Q : Str × Str × Str → Conn → Prop}
    (hpost : P.post req (.error .bcryptRaised) ses.past)
    (h : ∀ token hash, Drawn app marker (lookupPrefix token) hash token →
      Q (token, lookupPrefix token, hash) ses) : P.Wp req (generateToken app marker) ses Q := by
  refine wp_bind (wp_random fun bytes => wp_ret.2 (wp_bind (wp_random fun salt => wp_ret.2 ?_)))
  refine wp_bind (wp_orRaise (fun _ => hpost) fun hash hhash => ?_)
  exact h _ hash ⟨rfl, bytes, salt, rfl, hhash⟩

/-- The half of the specification that is about tokens. -/
abbrev tokensOnly (app : App) : Spec Row Key Cond Request ApiError Response :=
  (staying app).only (Issues app) (AnswersToken app)

theorem tokens_generateKey (caller : Caller) (p : GenerateKeyRequest) :
    (tokensOnly app).Safe (.generateKey caller p) (generateKey app caller p) {} := by
  refine wp_bind (wp_currentUser rfl (fun e => trivial) fun s₁ u h₁ hu => ?_)
  have hw₁ : s₁.tx.writes = [] := h₁.writes
  split
  · trivial
  refine wp_bind (wp_drawToken trivial fun token hash hdrawn => wp_bind (wp_bind (wp_random
    fun id => wp_ret.2 (wp_bind (wp_txTime fun ct => wp_ret.2 (wp_bind (wp_insert
    fun s₂ h₂ hfresh => wp_ret.2 ?_)))))))
  have hw₂ : s₂.tx.writes = _ := h₂.writes
  rw [hw₁, List.nil_append] at hw₂
  refine wp_bind (wp_createAudit ?_ fun s₃ a h₃ _ => ?_)
  · simp [hw₂, Write.target, Row.key]
  have hw₃ : s₃.tx.writes = _ := h₃.writes
  rw [hw₂] at hw₃
  have hu₃ : AsUser s₃.tx u := hu.mono fun e he => h₃.log e (h₂.log e he)
  have hfresh₃ := (hfresh (by rw [hw₁]; simp)).mono h₃.log
  refine wp_bind (wp_commitTx ⟨u, _, a, token, hu₃, rfl, rfl, hdrawn, hfresh₃, hw₃⟩ ?_)
  refine wp_bind (wp_refresh rfl trivial fun s₄ r h₄ hk => ?_)
  cases r with
  | apiKey k =>
    refine wp_ret.2 ⟨s₃.tx, _, ?_, ?_, (Key.apiKey.inj hk).symm, hdrawn⟩
    · rw [h₄.past]
      exact List.mem_append_right _ (List.mem_singleton_self _)
    · rw [hw₃]
      exact List.mem_cons_self ..
  | _ => trivial

theorem tokens_revokeKey (caller : Caller) (id : Uuid) :
    (tokensOnly app).Safe (.revokeKey caller id) (revokeKey app caller id) {} :=
  wp_revokeKey (fun _ _ => trivial)
    (fun k now a _ hk hnone hfound hw _ _ =>
      ⟨⟨k, now, a, hk, hnone, hfound, hw⟩, fun _ _ _ => trivial⟩)
    fun _ _ _ _ => trivial

theorem tokens_createClaimToken (caller : Caller) :
    (tokensOnly app).Safe (.createClaimToken caller) (createClaimToken app caller) {} := by
  refine wp_bind (wp_currentUser rfl (fun e => trivial) fun s₁ u h₁ hu => ?_)
  have hw₁ : s₁.tx.writes = [] := h₁.writes
  split
  · refine wp_bind (wp_drawToken trivial fun token hash hdrawn => wp_bind (wp_now fun now =>
      wp_ret.2 (wp_bind (wp_bind (wp_random fun id => wp_ret.2 (wp_bind (wp_txTime fun ct =>
      wp_ret.2 (wp_bind (wp_insert fun s₂ h₂ _ => wp_ret.2 ?_)))))))))
    have hw₂ : s₂.tx.writes = _ := h₂.writes
    rw [hw₁, List.nil_append] at hw₂
    refine wp_bind (wp_createAudit ?_ fun s₃ a h₃ _ => ?_)
    · simp [hw₂, Write.target, Row.key]
    have hw₃ : s₃.tx.writes = _ := h₃.writes
    rw [hw₂] at hw₃
    have hu₃ : AsUser s₃.tx u := hu.mono fun e he => h₃.log e (h₂.log e he)
    refine wp_bind (wp_commitTx ⟨u, _, a, token, hu₃, rfl, hdrawn, hw₃⟩ ?_)
    refine wp_bind (wp_refresh rfl trivial fun s₄ r h₄ _ => ?_)
    cases r <;> trivial
  · trivial

theorem tokens_registerNode (client : Client) (p : RegisterNodeRequest) :
    (tokensOnly app).Safe (.registerNode client p) (registerNode app client p) {} := by
  refine wp_bind (wp_getClaimTokenByPrefix rfl (fun s₁ c h₁ _ => ?_) (fun s₁ h₁ => ?_))
  · refine wp_bind (wp_checkClaimToken (fun _ => trivial) (fun _ => trivial)
      fun c' hc' _ hunused => ?_)
    cases hc'
    have hw₁ : s₁.tx.writes = [] := h₁.writes
    refine wp_bind (wp_drawToken trivial fun token hash hdrawn => wp_bind (wp_nodeName
      fun name => wp_bind (wp_now fun seen => wp_ret.2 (wp_bind (wp_bind (wp_random fun id =>
      wp_ret.2 (wp_bind (wp_txTime fun ct => wp_ret.2 (wp_bind (wp_insert
      fun s₂ h₂ _ => wp_ret.2 ?_))))))))))
    have hw₂ : s₂.tx.writes = _ := h₂.writes
    rw [hw₁, List.nil_append] at hw₂
    have hne : ∀ now, Row.claimToken { c with consumedAt := some now } ≠ .claimToken c := by
      intro now he
      have hcons := congrArg ClaimToken.consumedAt (Row.claimToken.inj he)
      rw [hunused] at hcons
      cases hcons
    refine wp_bind (wp_bind (wp_now fun now => wp_ret.2 (wp_flush_of_ne (hne now) ?_
      (fun _ _ _ => trivial) fun s₃ h₃ _ _ => ?_)))
    · simp [hw₂, Write.target, Row.key]
    have hw₃ : s₃.tx.writes = _ := h₃.writes
    rw [hw₂] at hw₃
    refine wp_bind (wp_createAudit ?_ fun s₄ a h₄ _ => ?_)
    · simp [hw₃, Write.target, Row.key]
    have hw₄ : s₄.tx.writes = _ := h₄.writes
    rw [hw₃] at hw₄
    refine wp_bind (wp_commitTx ⟨_, c, _, a, token, _, hash, rfl, rfl, hdrawn, hw₄⟩ ?_)
    refine wp_bind (wp_refreshNode rfl trivial fun s₅ n h₅ hid => wp_ret.2
      ⟨s₄.tx, _, _, hash, ?_, ?_, hid.symm, rfl, rfl, hdrawn⟩)
    · rw [h₅.past]
      exact List.mem_append_right _ (List.mem_singleton_self _)
    · rw [hw₄]
      exact List.mem_cons_self ..
  · exact wp_bind (wp_checkClaimToken (fun _ => trivial) (fun _ => trivial)
      fun c hc => by cases hc)

end Handlers

/-- **The handlers issue and revoke tokens as `Issues` says.** -/
theorem issuing_valid (app : App) : (issuing app).Valid (controlPlane app) := by
  refine Valid.also (platform_valid app _ _) ⟨fun req => ?_, fun _ req e past => ?_⟩
  · cases req with
    | generateKey caller p => exact tokens_generateKey caller p
    | revokeKey caller id => exact tokens_revokeKey caller id
    | createClaimToken caller => exact tokens_createClaimToken caller
    | registerNode client p => exact tokens_registerNode client p
    | _ => exact wp_of_trivial (fun _ => trivial) (fun _ _ => trivial) fun _ _ => trivial
  · cases req <;> trivial

/-! ## Accounts stay -/

/-- **No commit deletes an account.** -/
theorem usersStay_of_committing {rely : Rely} {refusals : Prop}
    (h : (platform app rely refusals).Committing db req tx) : UsersStay db (tx.view db) := by
  intro id hsome
  obtain ⟨u, hu⟩ := Option.isSome_iff_exists.1 hsome
  have hstep := user_step h id
  rw [hu] at hstep
  generalize (tx.view db).user id = o at hstep ⊢
  cases hstep <;> rfl

/-- No step disturbs an open transaction. -/
theorem issuing_kept {s s' : System} {l : Label Request}
    (hs : step (controlPlane app) s l = some s') : (issuing app).Kept s l s' :=
  kept_of_commits (P := issuing app) trivial
    (fun _ _ _ hcom _ _ => usersStay_of_committing hcom.of_also) hs

/-- In every state of every run the tokens are issued in order. -/
theorem issuing_ok {T : Terms Row Request ApiError Response} {s₀ s : System}
    (h₀ : s₀.threads = []) (h : Reach (controlPlane app) T s₀ s) : (issuing app).Ok s :=
  ok_reach (issuing_valid app) (fun _ _ _ hs _ _ => issuing_kept hs) (ok_of_no_threads h₀) h

/-! ## Lookup prefixes -/

/-- The rows of the tables that hold tokens. -/
def IsTokenRow : Row → Prop
  | .claimToken _ => True
  | .apiKey _ => True
  | .node _ => True
  | _ => False

/-- The requests that issue tokens. -/
def IssuesTokens : Request → Prop
  | .generateKey _ _ => True
  | .createClaimToken _ => True
  | .registerNode _ _ => True
  | _ => False

/-- No two rows that hold tokens have one lookup prefix. -/
def PrefixesDiffer (db : Database) : Prop :=
  ∀ a ∈ db.rows, ∀ b ∈ db.rows, IsTokenRow a → IsTokenRow b → a ≠ b → a.clash b = false

/-- The unique columns are those no `UPDATE` writes. -/
theorem versions_alike_row : Versions (Alike (R := Row)) := by
  refine versions_alike fun old new cur => ?_
  refine ⟨(Row.key_merge old new cur).symm, fun z => ?_⟩
  cases cur <;> cases old <;> cases new <;> first | rfl | (cases z <;> rfl)

theorem isTokenRow_of_alike {a b : Row} (h : Alike a b) (hb : IsTokenRow b) : IsTokenRow a := by
  have hkey : a.key = b.key := h.key
  cases a <;> cases b <;> trivial

section Emits

variable {α : Type}

/-- The statements of a handler that deletes nothing. -/
abbrev KeepsRows (x : Handler α) : Prop := x.Emits fun q => q.keepsRows = true

theorem keepsRows_of_reads {x : Handler α} (h : Reads x) : KeepsRows x :=
  Prog.Emits.mono (fun _ hq => Stmt.keepsRows_of_reads hq) h

theorem keepsRows_generateToken (marker : Str) : KeepsRows (generateToken app marker) := by
  refine Prog.emits_bind (Prog.emits_exec rfl) fun bytes => ?_
  refine Prog.emits_bind (Prog.emits_exec rfl) fun salt => ?_
  exact Prog.emits_bind (keepsRows_of_reads (reads_orRaise _)) fun hash => trivial

theorem keepsRows_createAudit (event : Event) (userId : Option Uuid) (data : EventData)
    (client : Client) : KeepsRows (createAudit event userId data client) :=
  ⟨rfl, fun _ => ⟨rfl, fun _ => ⟨rfl, fun _ => trivial⟩⟩⟩

theorem keepsRows_commit : KeepsRows commit := ⟨rfl, fun _ => trivial⟩

theorem keepsRows_flush (old new : Row) : KeepsRows (flush old new) := by
  unfold flush
  split
  · trivial
  · refine Prog.emits_bind (Prog.emits_exec rfl) fun matched => ?_
    cases matched <;> trivial

theorem keepsRows_refresh (k : Key) : KeepsRows (refresh k) := by
  refine Prog.emits_bind (Prog.emits_exec rfl) fun r => ?_
  cases r <;> trivial

theorem keepsRows_generateKey (caller : Caller) (p : GenerateKeyRequest) :
    KeepsRows (generateKey app caller p) := by
  refine Prog.emits_bind (keepsRows_of_reads (reads_currentUser _)) fun u => ?_
  split
  · trivial
  refine Prog.emits_bind (keepsRows_generateToken _) fun t => ?_
  refine Prog.emits_bind ⟨rfl, fun _ => ⟨rfl, fun _ => ⟨rfl, fun _ => trivial⟩⟩⟩ fun k => ?_
  refine Prog.emits_bind (keepsRows_createAudit _ _ _ _) fun _ => ?_
  refine Prog.emits_bind keepsRows_commit fun _ => ?_
  refine Prog.emits_bind (keepsRows_refresh _) fun r => ?_
  cases r <;> trivial

theorem keepsRows_createClaimToken (caller : Caller) :
    KeepsRows (createClaimToken app caller) := by
  refine Prog.emits_bind (keepsRows_of_reads (reads_currentUser _)) fun u => ?_
  split
  · refine Prog.emits_bind (keepsRows_generateToken _) fun t => ?_
    refine Prog.emits_bind (Prog.emits_exec rfl) fun now => ?_
    refine Prog.emits_bind ⟨rfl, fun _ => ⟨rfl, fun _ => ⟨rfl, fun _ => trivial⟩⟩⟩ fun k => ?_
    refine Prog.emits_bind (keepsRows_createAudit _ _ _ _) fun _ => ?_
    refine Prog.emits_bind keepsRows_commit fun _ => ?_
    refine Prog.emits_bind (keepsRows_refresh _) fun r => ?_
    cases r <;> trivial
  · trivial

theorem keepsRows_registerNode (client : Client) (p : RegisterNodeRequest) :
    KeepsRows (registerNode app client p) := by
  refine Prog.emits_bind ?_ fun found => Prog.emits_bind ?_ fun claim => ?_
  · refine Prog.emits_bind (Prog.emits_exec rfl) fun r => ?_
    split <;> trivial
  · cases found with
    | none => trivial
    | some c =>
      refine Prog.emits_bind (keepsRows_of_reads (reads_orRaise _)) fun valid => ?_
      cases valid with
      | false => trivial
      | true =>
        rw [if_pos rfl]
        split
        · trivial
        · refine Prog.emits_bind (Prog.emits_exec rfl) fun now => ?_
          split <;> trivial
  · refine Prog.emits_bind (keepsRows_generateToken _) fun t => ?_
    refine Prog.emits_bind ?_ fun name => ?_
    · unfold nodeName
      split
      · trivial
      · exact Prog.emits_bind (Prog.emits_exec rfl) fun _ => trivial
    refine Prog.emits_bind (Prog.emits_exec rfl) fun seen => ?_
    refine Prog.emits_bind ⟨rfl, fun _ => ⟨rfl, fun _ => ⟨rfl, fun _ => trivial⟩⟩⟩ fun n => ?_
    refine Prog.emits_bind ?_ fun _ => ?_
    · exact Prog.emits_bind (Prog.emits_exec rfl) fun now => keepsRows_flush _ _
    refine Prog.emits_bind (keepsRows_createAudit _ _ _ _) fun _ => ?_
    refine Prog.emits_bind keepsRows_commit fun _ => ?_
    refine Prog.emits_bind ?_ fun _ => trivial
    refine Prog.emits_bind (keepsRows_refresh _) fun r => ?_
    cases r <;> trivial

end Emits

theorem issuesTokens_of_may {x : Row} (h : req.may (.insert x)) (hx : IsTokenRow x) :
    IssuesTokens req := by
  cases req with
  | pushMetrics bearer id samples =>
    cases x with
    | claimToken c => obtain ⟨g, hg⟩ := h; cases hg
    | apiKey k => obtain ⟨g, hg⟩ := h; cases hg
    | node n => obtain ⟨g, hg⟩ := h; cases hg
    | _ => cases hx
  | _ => cases x <;> trivial

/-- The rows that hold tokens enter the store under their unique constraint. -/
theorem enters_tokens (app : App) : Enters (issuing app) (controlPlane app)
    (fun q => q.keepsRows = true) (fun w => ∀ k, w ≠ .delete k) IsTokenRow IssuesTokens := by
  refine enters_of_keepsRows versions_alike_row (fun a b => isTokenRow_of_alike)
    (fun req hreq => ?_)
    (fun req tx hshape x hx hux => ?_) fun req tx hshape hreq a ha b hb hab => ?_
  · cases req with
    | generateKey caller p => exact keepsRows_generateKey caller p
    | createClaimToken caller => exact keepsRows_createClaimToken caller
    | registerNode client p => exact keepsRows_registerNode client p
    | _ => cases hreq
  · exact issuesTokens_of_may (may_of_shape hshape.1 _ (mem_inserted.1 hx)) hux
  · -- there is one such row, and an audit row
    rw [mem_inserted] at ha hb
    have hpair : ∀ x y : Row, x.clash y = false → y.clash x = false → (a = x ∨ a = y) →
        (b = x ∨ b = y) → a.clash b = false := by
      rintro x y hxy hyx (rfl | rfl) (rfl | rfl)
      · exact absurd rfl hab
      · exact hxy
      · exact hyx
      · exact absurd rfl hab
    cases req with
    | generateKey caller p =>
      obtain ⟨u, k, l, token, -, -, -, -, -, hw⟩ := hshape.2
      rw [hw] at ha hb
      exact hpair (.apiKey k) (.auditLog l) rfl rfl (by simpa using ha) (by simpa using hb)
    | createClaimToken caller =>
      obtain ⟨u, c, l, token, -, -, -, hw⟩ := hshape.2
      rw [hw] at ha hb
      exact hpair (.claimToken c) (.auditLog l) rfl rfl (by simpa using ha) (by simpa using hb)
    | registerNode client p =>
      obtain ⟨n, c, c', l, token, prefixText, hash, -, -, -, hw⟩ := hshape.2
      rw [hw] at ha hb
      exact hpair (.node n) (.auditLog l) rfl rfl (by simpa using ha) (by simpa using hb)
    | _ => cases hreq

/-- The commits of a run keep the prefixes apart, and the requests on their way do. -/
abbrev TokensApart (s : System) : Prop :=
  Apart (fun q => q.keepsRows = true) (fun w => ∀ k, w ≠ .delete k) IsTokenRow IssuesTokens s

/-- **No two tokens have one lookup prefix**, in any state of any run. -/
theorem prefixes_differ {T : Terms Row Request ApiError Response} {clock : Time} {s : System}
    (hdb : PrefixesDiffer db) (h : Reach (controlPlane app) T (idle db clock) s) :
    PrefixesDiffer s.db := by
  have h₀ : TokensApart (idle db clock) := apart_of_no_threads rfl hdb
  refine (h.invariant (fun s => (issuing app).Ok s ∧ TokensApart s) (fun s l s' hI hs _ => ?_)
    ⟨ok_of_no_threads rfl, h₀⟩).2.stored
  refine ⟨?_, apart_step (enters_tokens app) Row.clash_comm hI.1 hI.2 hs⟩
  exact ok_step (issuing_valid app) hI.1 hs (issuing_kept hs)

end GpuNetwork
