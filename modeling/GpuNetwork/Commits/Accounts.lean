import GpuNetwork.Commits.Nodes
import GpuNetwork.Commits.Queries

/-!
# The account handlers keep to their shape

* `safe_signup`, `safe_login`, `safe_generateKey`, `safe_revokeKey`, `safe_approveUser`,
  `safe_suspendUser`, `safe_listAuditEvents`.
* `platform_valid` — **every handler of the control plane keeps to its shape**.
-/

namespace GpuNetwork

open ReadCommitted ReadCommitted.Spec

variable {app : App} {rely : Rely} {refusals : Prop}

theorem wp_getUserByEmail {P : Spec Row Key Cond Request ApiError Response} {req : Request}
    {ses : Conn} {email : Str} {Q : Option User → Conn → Prop} (hw : ses.tx.writes = [])
    (h : ∀ ses' u, ses.Adds ses' [] → Q u ses') : P.Wp req (getUserByEmail email) ses Q := by
  refine wp_selectUser hw (fun r hr => ?_) (fun s₁ u h₁ _ _ => h s₁ _ h₁)
    (fun s₁ h₁ _ => h s₁ _ h₁)
  cases r <;> simp_all [Cond.holds]

theorem safe_signup (client : Client) (p : SignupRequest) :
    (platform app rely refusals).Safe (.signup client p) (signup app client p) {} := by
  refine wp_bind (wp_getUserByEmail rfl fun s₁ existing h₁ => ?_)
  have hw₁ : s₁.tx.writes = [] := h₁.writes
  cases existing with
  | some u => trivial
  | none =>
    refine wp_bind (wp_random fun salt => wp_ret.2 (wp_bind (wp_orRaise (fun _ => trivial)
      fun hash _ => wp_bind (wp_bind (wp_random fun id => wp_ret.2 (wp_bind (wp_txTime fun t =>
      wp_ret.2 (wp_bind (wp_insert fun s₂ h₂ hf => wp_ret.2 ?_)))))))))
    have hfresh := hf (target_ne_of_empty hw₁ _)
    have hw₂ : s₂.tx.writes = _ := h₂.writes
    rw [hw₁, List.nil_append] at hw₂
    refine wp_bind (wp_createAudit ?_ fun s₃ a h₃ ha => ?_)
    · simp [hw₂, Write.target, Row.key]
    have hw₃ : s₃.tx.writes = _ := h₃.writes
    rw [hw₂] at hw₃
    refine wp_bind (wp_commitTx ?_ (wp_bind (wp_refreshUser rfl trivial fun s₄ u h₄ => trivial)))
    exact Shape.signup hw₃ rfl (hfresh.mono h₃.log) ha

/-- A transaction that inserts an audit row and nothing else. -/
theorem wp_auditOnly {P : Spec Row Key Cond Request ApiError Response} {req : Request}
    {ses : Conn} {event : Event} {userId : Option Uuid} {data : EventData} {client : Client}
    {β : Type} {f : Unit → Handler β} {Q : β → Conn → Prop} (hw : ses.tx.writes = [])
    (hshape : ∀ tx a, tx.writes = [.insert (.auditLog a)] → tx.Fresh (.auditLog a.id) →
      a.eventType = event → P.shape req tx)
    (h : ∀ ses', ses'.tx.writes = [] → P.Wp req (f ()) ses' Q) :
    P.Wp req (do
      createAudit event userId data client
      let x ← commit
      f x) ses Q := by
  refine wp_bind (wp_createAudit (target_ne_auditLog_of_empty hw) fun s₁ a h₁ ha => ?_)
  have hw₁ : s₁.tx.writes = _ := h₁.writes
  rw [hw, List.nil_append] at hw₁
  exact wp_bind (wp_commitTx (hshape _ a hw₁ ha.fresh ha.event) (h _ rfl))

theorem safe_login (client : Client) (p : LoginRequest) :
    (platform app rely refusals).Safe (.login client p) (login app client p) {} := by
  have hfail : ∀ (s : Conn) (user : Option User), s.tx.writes = [] →
      (platform app rely refusals).Safe (.login client p) (loginFailed client p.email user) s :=
    fun s user hw => wp_auditOnly hw
      (fun tx a hws hf he => Shape.aside (Aside.login hws hf (Or.inr he))) fun _ _ => trivial
  refine wp_bind (wp_getUserByEmail rfl fun s₁ found h₁ => ?_)
  have hw₁ : s₁.tx.writes = [] := h₁.writes
  cases found with
  | none => exact hfail s₁ none hw₁
  | some u =>
    refine wp_bind (wp_orRaise (fun _ => trivial) fun valid _ => ?_)
    cases valid with
    | false => exact hfail s₁ _ hw₁
    | true =>
      refine wp_auditOnly hw₁
        (fun tx a hws hf he => Shape.aside (Aside.login hws hf (Or.inl he))) fun s₂ hw₂ => ?_
      exact wp_bind (wp_bind (wp_now fun now => trivial))

/-! ## API keys -/

theorem safe_generateKey (caller : Caller) (p : GenerateKeyRequest) :
    (platform app rely refusals).Safe (.generateKey caller p) (generateKey app caller p) {} := by
  refine wp_bind (wp_currentUser rfl (fun e => trivial) fun s₁ u h₁ _ => ?_)
  have hw₁ : s₁.tx.writes = [] := h₁.writes
  split
  · trivial
  refine wp_bind (wp_generateToken (fun _ _ _ => trivial) fun t => wp_bind (wp_bind (wp_random
    fun id => wp_ret.2 (wp_bind (wp_txTime fun ct => wp_ret.2 (wp_bind (wp_insert
    fun s₂ h₂ hf => wp_ret.2 ?_)))))))
  have hw₂ : s₂.tx.writes = _ := h₂.writes
  rw [hw₁, List.nil_append] at hw₂
  refine wp_bind (wp_createAudit ?_ fun s₃ a h₃ ha => ?_)
  · simp [hw₂, Write.target, Row.key]
  have hw₃ : s₃.tx.writes = _ := h₃.writes
  rw [hw₂] at hw₃
  refine wp_bind (wp_commitTx (Shape.aside (Aside.generateKey hw₃ ha.fresh ha.event)) ?_)
  refine wp_bind (wp_refresh rfl trivial fun s₄ r h₄ hk => ?_)
  cases r <;> trivial

/-- **A revocation** commits the update of the key, or finds it revoked. -/
theorem wp_revokeKey {P : Spec Row Key Cond Request ApiError Response} {req : Request}
    {Q : Response → Conn → Prop} {caller : Caller} {id : Uuid}
    (hpost : ∀ e past, P.post req (.error e) past)
    (hcommit : ∀ k now a (ses : Conn), k.id = id → k.revokedAt = none →
      ses.tx.Found (.apiKey id) → ses.tx.writes =
        [.update (.apiKey k) (.apiKey { k with revokedAt := some now }), .insert (.auditLog a)] →
      ses.tx.Fresh (.auditLog a.id) → a.eventType = .apikeyRevoked →
      P.shape req ses.tx ∧ ∀ k' (ses' : Conn), ses'.past = ses.past ++ [ses.tx] →
        Q (.apiKey k') ses')
    (hagain : ∀ k (ses : Conn), ses.tx.Read (.byKey (.apiKey id)) (.apiKey k) →
      k.revokedAt ≠ none → Q (.apiKey k) ses) :
    P.Wp req (revokeKey app caller id) {} Q := by
  refine wp_bind (wp_currentUser rfl (fun e => hpost _ _) fun s₁ u h₁ _ => ?_)
  have hw₁ : s₁.tx.writes = [] := h₁.writes
  have hid : ∀ r : Row, (Cond.byKey (.apiKey id)).holds r = true → ∃ k, r = .apiKey k := by
    intro r hr
    have hk : r.key = .apiKey id := of_decide_eq_true hr
    cases r with
    | apiKey k => exact ⟨k, rfl⟩
    | _ => cases hk
  refine wp_bind (wp_selectApiKey hw₁ hid (fun s₂ k h₂ hread => ?_) (fun s₂ h₂ _ => hpost _ _))
  have hw₂ : s₂.tx.writes = [] := by rw [h₂.writes, hw₁]; rfl
  have hk : k.id = id := by
    obtain ⟨e, -, -, -, hh⟩ := hread
    simpa [Cond.holds, Row.key] using hh
  dsimp only
  split
  · exact hpost _ _
  split
  · rename_i hnone
    have hne : ∀ now, Row.apiKey { k with revokedAt := some now } ≠ .apiKey k := by
      intro now he
      have hr := congrArg ApiKey.revokedAt (Row.apiKey.inj he)
      rw [hnone] at hr
      cases hr
    refine wp_bind (wp_bind (wp_now fun now => wp_ret.2 (wp_flush_of_ne (hne now)
      (target_ne_of_empty hw₂ _) (fun _ _ _ => hpost _ _) fun s₃ h₃ hfound _ => ?_)))
    have hw₃ : s₃.tx.writes = _ := h₃.writes
    rw [hw₂, List.nil_append] at hw₃
    refine wp_bind (wp_createAudit ?_ fun s₄ a h₄ ha => ?_)
    · simp [hw₃, Write.target, Row.key]
    have hw₄ : s₄.tx.writes = _ := h₄.writes
    rw [hw₃] at hw₄
    have hfound₄ : s₄.tx.Found (.apiKey id) := (hk ▸ hfound : s₃.tx.Found (.apiKey id)).mono h₄.log
    obtain ⟨hshape, hdone⟩ := hcommit k now a s₄ hk hnone hfound₄ hw₄ ha.fresh ha.event
    refine wp_bind (wp_commitTx hshape ?_)
    refine wp_bind (wp_refresh rfl (hpost _ _) fun s₅ r h₅ _ => ?_)
    cases r with
    | apiKey k' => exact wp_ret.2 (hdone k' s₅ h₅.past)
    | _ => exact hpost _ _
  · rename_i hsome
    exact wp_ret.2 (hagain k s₂ hread hsome)

theorem safe_revokeKey (caller : Caller) (id : Uuid) :
    (platform app rely refusals).Safe (.revokeKey caller id) (revokeKey app caller id) {} :=
  wp_revokeKey (fun _ _ => trivial)
    (fun _ _ _ _ _ _ _ hw hfresh hevent =>
      ⟨Shape.aside (Aside.revokeKey hw hfresh hevent), fun _ _ _ => trivial⟩)
    fun _ _ _ _ => trivial

/-! ## Administration -/

/-- The account an administrator acts on, as the object mapper hands it out. -/
theorem wp_getUserFor {P : Spec Row Key Cond Request ApiError Response} {req : Request}
    {ses : Conn} {admin : User} {id : Uuid} {Q : User → Conn → Prop} (hw : ses.tx.writes = [])
    (hpost : ∀ e, P.post req (.error e) ses.past) (hadmin : AsUser ses.tx admin)
    (h : ∀ ses' u, ses.Adds ses' [] → AsUser ses'.tx u → u.id = id → Q u ses') :
    P.Wp req (getUserFor admin id) ses Q := by
  refine wp_bind (wp_getUserById hw (fun s₁ u h₁ hu hid => ?_) (fun s₁ h₁ _ => ?_))
  · dsimp only
    split
    · rename_i hself
      exact h s₁ admin h₁ (hadmin.mono h₁.log) (hself.symm.trans hid)
    · exact h s₁ u h₁ ⟨_, hu⟩ hid
  · have hp := hpost (.userNotFound id)
    rw [← h₁.past] at hp
    exact hp

/-- What `approve_user` and `suspend_user` do once they have the account. -/
theorem wp_sets {req : Request} {id : Uuid} {event : Event} {f : User → User}
    {data : EventData} (hreq : Sets req id event f data) {ses : Conn} {u : User}
    {client : Client} (hw : ses.tx.writes = []) (hu : AsUser ses.tx u) (hid : u.id = id)
    (hkey : (f u).id = u.id)
    (herr : ∀ e past, (platform app rely refusals).post req (.error e) past)
    (hok : ∀ r past, (platform app rely refusals).post req (.ok r) past) :
    (platform app rely refusals).Wp req (do
      flush (.user u) (.user (f u))
      createAudit event (some u.id) data client
      commit
      let user ← refreshUser u.id
      pure (Response.user user)) ses fun a ses' =>
        (platform app rely refusals).post req (.ok a) ses'.past := by
  refine wp_bind (wp_flush (target_ne_of_empty hw _) (fun _ _ _ => herr _ _)
    fun s₁ h₁ hf _ => ?_)
  have hw₁ : s₁.tx.writes = _ := h₁.writes
  rw [hw, List.nil_append] at hw₁
  refine wp_bind (wp_createAudit ?_ fun s₂ a h₂ ha => ?_)
  · intro w hm
    rw [hw₁] at hm
    rw [mem_flushed hm]
    simp [Write.target, Row.key]
  have hw₂ : s₂.tx.writes = _ := h₂.writes
  rw [hw₁] at hw₂
  refine wp_bind (wp_commitTx ?_ (wp_bind (wp_refreshUser rfl (herr _ _) fun s₃ u' h₃ => hok _ _)))
  exact Shape.sets hreq hid (hu.mono fun e he => h₂.log e (h₁.log e he)) hkey hw₂
    (hf.imp (fun h => h) fun h => h.mono h₂.log) (by rw [← hid]; exact ha)

theorem safe_approveUser (caller : Caller) (id : Uuid) (p : ApproveRequest) :
    (platform app rely refusals).Safe (.approveUser caller id p) (approveUser app caller id p)
      {} := by
  refine wp_bind (wp_requireAdmin rfl (fun e => trivial) fun s₁ admin h₁ ha => ?_)
  have hw₁ : s₁.tx.writes = [] := h₁.writes
  refine wp_bind (wp_getUserFor hw₁ (fun e => trivial) ha fun s₂ u h₂ hu hid => ?_)
  have hw₂ : s₂.tx.writes = [] := by rw [h₂.writes, hw₁]; rfl
  exact wp_sets .approveUser hw₂ hu hid rfl (fun _ _ => trivial) fun _ _ => trivial

theorem safe_suspendUser (caller : Caller) (id : Uuid) :
    (platform app rely refusals).Safe (.suspendUser caller id) (suspendUser app caller id) {} := by
  refine wp_bind (wp_requireAdmin rfl (fun e => trivial) fun s₁ admin h₁ ha => ?_)
  have hw₁ : s₁.tx.writes = [] := h₁.writes
  refine wp_bind (wp_getUserFor hw₁ (fun e => trivial) ha fun s₂ u h₂ hu hid => ?_)
  have hw₂ : s₂.tx.writes = [] := by rw [h₂.writes, hw₁]; rfl
  exact wp_sets .suspendUser hw₂ hu hid rfl (fun _ _ => trivial) fun _ _ => trivial

theorem safe_listAuditEvents (caller : Caller) (f : AuditFilter)
    (cursor : Option Str) (limit : Nat) :
    (platform app rely refusals).Safe (.listAuditEvents caller f cursor limit)
      (listAuditEvents app caller f cursor limit) {} := by
  refine wp_bind (wp_requireAdmin rfl (fun e => trivial) fun s₁ admin h₁ _ => ?_)
  refine wp_bind (wp_cursorBound (fun e => trivial) fun decoded => ?_)
  refine wp_bind (wp_bind (wp_sendTexts (fun e => trivial) (wp_bind (wp_selectAll
    fun s₂ users h₂ => wp_ret.2 (wp_bind (wp_selectAll fun s₃ rows h₃ =>
      wp_ret.2 (wp_ret.2 ?_)))))))
  have hw₃ : s₃.tx.writes = [] := by rw [h₃.writes, h₂.writes, h₁.writes]; rfl
  exact wp_auditOnly hw₃
    (fun tx a hws hf he => Shape.aside (Aside.listAuditEvents hws hf he)) fun _ _ => trivial

/-! ## The whole server -/

/-- A database error may surface in any request, where the run allows for one. -/
theorem answer_of_refused (h : refusals) (req : Request) (e : SqlError)
    (past : List Transaction) : Answer app rely refusals req (.error (.database e)) past := by
  cases req with
  | registerNode client p => exact Or.inr (Or.inr (Or.inl ⟨h, e, rfl⟩))
  | _ => trivial

/-- **Every handler of the control plane keeps to its shape.** -/
theorem platform_valid (app : App) (rely : Rely) (refusals : Prop) :
    (platform app rely refusals).Valid (controlPlane app) where
  handle := fun req => by
    cases req with
    | signup client p => exact safe_signup client p
    | login client p => exact safe_login client p
    | generateKey caller p => exact safe_generateKey caller p
    | revokeKey caller id => exact safe_revokeKey caller id
    | approveUser caller id p => exact safe_approveUser caller id p
    | suspendUser caller id => exact safe_suspendUser caller id
    | listAuditEvents caller f cursor limit => exact safe_listAuditEvents caller f cursor limit
    | createClaimToken caller => exact safe_createClaimToken caller
    | registerNode client p => exact safe_registerNode client p
    | heartbeat bearer id => exact safe_heartbeat bearer id
    | pushMetrics bearer id samples => exact safe_pushMetrics bearer id samples
    | drainNode caller id => exact safe_drainNode caller id
    | undrainNode caller id => exact safe_undrainNode caller id
    | deleteNode caller id => exact safe_deleteNode caller id
    | forceDrainNode caller id => exact safe_forceDrainNode caller id
    | submitJob caller p => exact safe_submitJob caller p
    | claimJob bearer => exact safe_claimJob bearer
    | completeJob bearer id p => exact safe_completeJob bearer id p
    | cancelJob caller id => exact safe_cancelJob caller id
    | forceKillJob caller id => exact safe_forceKillJob caller id
    | pushLogs bearer id entries => exact safe_pushLogs bearer id entries
    | listUsers caller status query cursor limit =>
      exact safe_listUsers caller status query cursor limit
    | getUserDetail caller id => exact safe_getUserDetail caller id
    | getAuditEvent caller id => exact safe_getAuditEvent caller id
    | dashboard caller => exact safe_dashboard caller
    | listJobs caller status cursor limit => exact safe_listJobs caller status cursor limit
    | getJob caller id => exact safe_getJob caller id
    | getLogs caller id after limit => exact safe_getLogs caller id after limit
  refused := fun h req e past => answer_of_refused h req e past

end GpuNetwork
