import GpuNetwork.Accounts.Privileges
import GpuNetwork.Commits.AllOrNothing
import GpuNetwork.Store.Seen

/-!
# Where privileges come from

Nobody becomes an administrator by a request, and whatever else an account may do has been
granted by one: its active status, its right to host, and its credits.

* `ByAdmin`, `byAdmin_valid` — what a request for administrators has found out.
* `Committed` — a request has been committed; `Granted` — what an account owes to whom.
* `privileges_come_from_administrators` — every privilege, in every reachable state.
-/

namespace GpuNetwork

open ReadCommitted ReadCommitted.Spec

/-- Who asks for what only administrators may have done. -/
def adminCaller : Request → Option Caller
  | .approveUser caller _ _ => some caller
  | .suspendUser caller _ => some caller
  | .listAuditEvents caller _ _ _ => some caller
  | .forceDrainNode caller _ => some caller
  | .forceKillJob caller _ => some caller
  | _ => none

/-- The transaction has found the credential to be that of an administrator. -/
def ByAdmin (app : App) (req : Request) (tx : Transaction) : Prop :=
  ∀ caller, adminCaller req = some caller →
    ∃ u, Shown app tx caller.bearer u ∧ u.isAdmin = true

/-- The specification of the platform with what is said about administrators. -/
def administering (app : App) : Spec Row Key Cond Request ApiError Response :=
  (platform app (fun _ _ _ _ => True) True).also (ByAdmin app) fun _ _ _ => True

variable {app : App} {db : Database} {req : Request} {tx : Transaction}

/-! ## The handlers -/

section Handlers

variable {P : Spec Row Key Cond Request ApiError Response} {ses : Conn}

theorem stays_of_reads {α : Type} {x : Handler α} (h : Reads x) : x.Emits Stmt.stays :=
  h.mono fun q hq => ⟨fun he => (by subst he; cases hq), fun he => (by subst he; cases hq)⟩

theorem reads_refreshUser (id : Uuid) : Reads (refreshUser id) := by
  refine Prog.emits_bind (reads_refresh _) fun r => ?_
  split <;> trivial

theorem reads_detail (id : Uuid) : Reads (refreshNode id >>= nodeDetail) :=
  Prog.emits_bind (reads_refreshNode _) fun _ => Prog.emits_bind (reads_selectJob _) fun _ =>
    Prog.emits_bind (Prog.emits_exec rfl) fun _ => trivial

theorem wp_requireAdmin_shown {Q : User → Conn → Prop} {bearer : Option Str}
    (hw : ses.tx.writes = []) (hpost : ∀ e past, P.post req (.error e) past)
    (h : ∀ ses' u, ses.Adds ses' [] → Shown app ses'.tx bearer u → u.isAdmin = true →
      Q u ses') : P.Wp req (requireAdmin app bearer) ses Q := by
  refine wp_bind (wp_currentUser_shown hw hpost fun s₁ u h₁ hu => ?_)
  split
  · rename_i hadmin
    exact h s₁ u h₁ hu hadmin
  · exact hpost _ _

end Handlers

/-- What the log of a transaction shows, it shows when more has been noted. -/
theorem ByAdmin.of_shown {tx tx' : Transaction} {caller : Caller} {u : User}
    (hcaller : adminCaller req = some caller) (hlog : tx.log <:+ tx'.log)
    (hu : Shown app tx caller.bearer u) (hadmin : u.isAdmin = true) : ByAdmin app req tx' := by
  intro caller' hcaller'
  rw [hcaller, Option.some.injEq] at hcaller'
  subst hcaller'
  exact ⟨u, hu.mono fun e he => hlog.subset he, hadmin⟩

/-- The part of the specification that is about administrators. -/
abbrev byAdmin (app : App) : Spec Row Key Cond Request ApiError Response :=
  (platform app (fun _ _ _ _ => True) True).only (ByAdmin app) fun _ _ _ => True

theorem safe_byAdmin_approveUser (caller : Caller) (userId : Uuid) (p : ApproveRequest) :
    (byAdmin app).Safe (.approveUser caller userId p) (approveUser app caller userId p) {} := by
  refine wp_bind (wp_requireAdmin_shown rfl (fun _ _ => trivial) fun s₁ u h₁ hu hadmin => ?_)
  refine wp_bind (wp_of_stays (stays_of_reads (reads_getUserFor _ _)) (fun _ _ => trivial)
    fun user s₂ h₂ => ?_)
  refine wp_bind (wp_of_stays (stays_flush _ _) (fun _ _ => trivial) fun _ s₃ h₃ => ?_)
  refine wp_bind (wp_of_stays (stays_createAudit _ _ _ _) (fun _ _ => trivial) fun _ s₄ h₄ => ?_)
  refine wp_bind (wp_commitTx (.of_shown rfl (h₂.trans (h₃.trans h₄)) hu hadmin) ?_)
  exact wp_bind (wp_of_reads (reads_refreshUser _) (fun _ _ => trivial) fun _ _ => trivial)

theorem safe_byAdmin_suspendUser (caller : Caller) (userId : Uuid) :
    (byAdmin app).Safe (.suspendUser caller userId) (suspendUser app caller userId) {} := by
  refine wp_bind (wp_requireAdmin_shown rfl (fun _ _ => trivial) fun s₁ u h₁ hu hadmin => ?_)
  refine wp_bind (wp_of_stays (stays_of_reads (reads_getUserFor _ _)) (fun _ _ => trivial)
    fun user s₂ h₂ => ?_)
  refine wp_bind (wp_of_stays (stays_flush _ _) (fun _ _ => trivial) fun _ s₃ h₃ => ?_)
  refine wp_bind (wp_of_stays (stays_createAudit _ _ _ _) (fun _ _ => trivial) fun _ s₄ h₄ => ?_)
  refine wp_bind (wp_commitTx (.of_shown rfl (h₂.trans (h₃.trans h₄)) hu hadmin) ?_)
  exact wp_bind (wp_of_reads (reads_refreshUser _) (fun _ _ => trivial) fun _ _ => trivial)

theorem safe_byAdmin_listAuditEvents (caller : Caller) (f : AuditFilter) (cursor : Option Str)
    (limit : Nat) : (byAdmin app).Safe (.listAuditEvents caller f cursor limit)
      (listAuditEvents app caller f cursor limit) {} := by
  refine wp_bind (wp_requireAdmin_shown rfl (fun _ _ => trivial) fun s₁ u h₁ hu hadmin => ?_)
  refine wp_bind (wp_of_stays (stays_of_reads (reads_cursorBound _)) (fun _ _ => trivial)
    fun decoded s₂ h₂ => ?_)
  refine wp_bind (wp_of_stays (stays_of_reads (reads_listAudit _ _ _)) (fun _ _ => trivial)
    fun rows s₃ h₃ => ?_)
  refine wp_bind (wp_of_stays (stays_createAudit _ _ _ _) (fun _ _ => trivial) fun _ s₄ h₄ => ?_)
  exact wp_bind (wp_commitTx (.of_shown rfl (h₂.trans (h₃.trans h₄)) hu hadmin) trivial)

theorem safe_byAdmin_forceDrainNode (caller : Caller) (nodeId : Uuid) :
    (byAdmin app).Safe (.forceDrainNode caller nodeId) (forceDrainNode app caller nodeId) {} := by
  refine wp_bind (wp_requireAdmin_shown rfl (fun _ _ => trivial) fun s₁ u h₁ hu hadmin => ?_)
  refine wp_bind (wp_of_stays (stays_of_reads (reads_selectNode _)) (fun _ _ => trivial)
    fun found s₂ h₂ => ?_)
  cases found with
  | none => trivial
  | some node =>
    refine wp_bind (wp_of_stays (stays_drain _ _ _ _ _) (fun _ _ => trivial) fun _ s₃ h₃ => ?_)
    refine wp_bind (wp_commitTx (.of_shown rfl (h₂.trans h₃) hu hadmin) ?_)
    exact wp_of_reads (reads_detail _) (fun _ _ => trivial) fun _ _ => trivial

theorem safe_byAdmin_forceKillJob (caller : Caller) (jobId : Uuid) :
    (byAdmin app).Safe (.forceKillJob caller jobId) (forceKillJob app caller jobId) {} := by
  refine wp_bind (wp_requireAdmin_shown rfl (fun _ _ => trivial) fun s₁ u h₁ hu hadmin => ?_)
  refine wp_bind (wp_of_stays (stays_of_reads (reads_selectJob _)) (fun _ _ => trivial)
    fun found s₂ h₂ => ?_)
  cases found with
  | none => trivial
  | some job =>
    refine wp_bind (wp_cancelOrRequestCancel_noted (fun _ _ => trivial) (fun _ _ => trivial)
      fun tx hlog => ?_)
    intro caller' hcaller
    cases hcaller
    exact ⟨u, hu.mono fun e he => hlog e (h₂.subset he), hadmin⟩

/-- **What only administrators may have done is done for administrators.** -/
theorem byAdmin_valid (app : App) : (administering app).Valid (controlPlane app) := by
  refine (platform_valid app _ True).also ⟨fun req => ?_, fun _ _ _ _ => trivial⟩
  have hother : adminCaller req = none →
      (byAdmin app).Safe req ((controlPlane app).handle req) {} := fun hnone =>
    wp_of_trivial (fun tx caller hcaller => by rw [hnone] at hcaller; cases hcaller)
      (fun _ _ => trivial) fun _ _ => trivial
  cases req with
  | approveUser caller id p => exact safe_byAdmin_approveUser caller id p
  | suspendUser caller id => exact safe_byAdmin_suspendUser caller id
  | listAuditEvents caller f cursor limit =>
    exact safe_byAdmin_listAuditEvents caller f cursor limit
  | forceDrainNode caller id => exact safe_byAdmin_forceDrainNode caller id
  | forceKillJob caller id => exact safe_byAdmin_forceKillJob caller id
  | _ => exact hother rfl

/-! ## What accounts owe to whom -/

/-- The account is an administrator's. -/
def IsAdministrator (db : Database) (id : Uuid) : Prop :=
  ∃ u, db.user id = some u ∧ u.isAdmin = true

/-- The request has committed. -/
def Committed (s : System) (req : Request) : Prop :=
  ∃ (i : Nat) (th : Pending), s.threads[i]? = some th ∧ th.req = req ∧ th.ses.past ≠ []

/-- What the account may do it could do from the start, or it has been granted. -/
structure Granted (db₀ : Database) (s : System) (id : Uuid) (u : User) : Prop where
  admin : u.isAdmin = true → IsAdministrator db₀ id
  active : u.status = .active → (∃ v, db₀.user id = some v ∧ v.status = .active) ∨
    ∃ caller p, Committed s (.approveUser caller id p)
  suspended : u.status = .suspended → (∃ v, db₀.user id = some v ∧ v.status = .suspended) ∨
    ∃ caller, Committed s (.suspendUser caller id)
  host : u.canHost = true → (∃ v, db₀.user id = some v ∧ v.canHost = true) ∨
    ∃ caller p, Committed s (.approveUser caller id p) ∧ p.canHost = true
  credits : u.creditsGpuHours ≤ 0 ∨
    (∃ v, db₀.user id = some v ∧ u.creditsGpuHours ≤ v.creditsGpuHours) ∨
    ∃ caller p, Committed s (.approveUser caller id p) ∧ u.creditsGpuHours ≤ p.creditsGpuHours

variable {db₀ : Database} {s s' s₀ : System} {l : Label Request} {id : Uuid} {u : User}

theorem committed_step (hs : step (controlPlane app) s l = some s') (h : Committed s req) :
    Committed s' req := by
  obtain ⟨i, th, hi, hreq, hpast⟩ := h
  obtain ⟨tx, htx⟩ := List.exists_mem_of_ne_nil _ hpast
  obtain ⟨th', hi', hreq', htx'⟩ := past_later hs hi htx
  exact ⟨i, th', hi', hreq'.trans hreq, List.ne_nil_of_mem htx'⟩

theorem committed_of_commits (hs : step (controlPlane app) s l = some s') {i : Nat}
    {th : Pending} (hc : Commits s l i th) : Committed s' th.req := by
  obtain ⟨th', hi', hses⟩ := thread_of_commits hc hs
  obtain ⟨t, ht, hreq, -⟩ := thread_later hs hc.1
  rw [hi', Option.some.injEq] at ht
  subst ht
  exact ⟨i, th', hi', hreq, by rw [hses]; simp [Session.committed]⟩

/-- A grant is not taken back by anything that happens later. -/
theorem Granted.step (hs : step (controlPlane app) s l = some s') (h : Granted db₀ s id u) :
    Granted db₀ s' id u where
  admin := h.admin
  active ha := (h.active ha).imp_right fun ⟨caller, p, hc⟩ => ⟨caller, p, committed_step hs hc⟩
  suspended ha := (h.suspended ha).imp_right fun ⟨caller, hc⟩ => ⟨caller, committed_step hs hc⟩
  host ha := (h.host ha).imp_right fun ⟨caller, p, hc, hp⟩ => ⟨caller, p, committed_step hs hc, hp⟩
  credits := h.credits.imp_right fun hrest => hrest.imp_right
    fun ⟨caller, p, hc, hp⟩ => ⟨caller, p, committed_step hs hc, hp⟩

/-- An account that may do nothing owes nothing. -/
theorem Granted.of_fresh (hadmin : u.isAdmin = false) (hstatus : u.status = .pending)
    (hhost : u.canHost = false) (hcredits : u.creditsGpuHours = 0) : Granted db₀ s id u where
  admin ha := by rw [hadmin] at ha; cases ha
  active ha := by rw [hstatus] at ha; cases ha
  suspended ha := by rw [hstatus] at ha; cases ha
  host ha := by rw [hhost] at ha; cases ha
  credits := Or.inl hcredits.le

theorem granted_at_start (hu : db₀.user id = some u) : Granted db₀ s id u where
  admin ha := ⟨u, hu, ha⟩
  active ha := Or.inl ⟨u, hu, ha⟩
  suspended ha := Or.inl ⟨u, hu, ha⟩
  host ha := Or.inl ⟨u, hu, ha⟩
  credits := Or.inr (Or.inl ⟨u, hu, le_rfl⟩)

/-- A column is what it was, or what has been written to it. -/
theorem col_cases {α : Type} [DecidableEq α] (old new cur : α) :
    col old new cur = cur ∨ (col old new cur = new ∧ new ≠ old) := by
  by_cases h : new = old
  · exact Or.inl (by rw [h, col_self])
  · exact Or.inr ⟨col_of_ne h _, h⟩

/-- An approval grants what it says. -/
theorem Granted.approved {caller : Caller} {p : ApproveRequest} {v cur : User}
    (h : Granted db₀ s id cur) (hc : Committed s (.approveUser caller id p)) :
    Granted db₀ s id (v.merge
      { v with
        status := .active, canHost := p.canHost, creditsGpuHours := p.creditsGpuHours }
      cur) where
  admin := h.admin
  active _ := Or.inr ⟨caller, p, hc⟩
  suspended ha := by
    rcases col_cases v.status .active cur.status with hcol | ⟨hcol, -⟩
    · exact h.suspended (hcol ▸ ha)
    · exact absurd (hcol ▸ ha : UserStatus.active = .suspended) (by simp)
  host ha := by
    rcases col_cases v.canHost p.canHost cur.canHost with hcol | ⟨hcol, -⟩
    · exact h.host (hcol ▸ ha)
    · exact Or.inr ⟨caller, p, hc, hcol ▸ ha⟩
  credits := by
    rcases col_cases v.creditsGpuHours p.creditsGpuHours cur.creditsGpuHours with hcol | ⟨hcol, -⟩
    · simpa only [User.merge, hcol] using h.credits
    · exact Or.inr (Or.inr ⟨caller, p, hc, hcol.le⟩)

/-- A suspension grants nothing. -/
theorem Granted.suspend {caller : Caller} {v cur : User} (h : Granted db₀ s id cur)
    (hc : Committed s (.suspendUser caller id)) :
    Granted db₀ s id (v.merge { v with status := .suspended } cur) where
  admin := h.admin
  active ha := by
    rcases col_cases v.status .suspended cur.status with hcol | ⟨hcol, -⟩
    · exact h.active (hcol ▸ ha)
    · exact absurd (hcol ▸ ha : UserStatus.suspended = .active) (by simp)
  suspended _ := Or.inr ⟨caller, hc⟩
  host ha := h.host (by simpa [User.merge] using ha)
  credits := by simpa [User.merge] using h.credits

/-- A bill lowers a balance, though it may be one that was read before an approval. -/
theorem Granted.bill {v cur : User} {hours : Int} (hhours : 0 ≤ hours) (h : Granted db₀ s id cur)
    (hv : Granted db₀ s id v) : Granted db₀ s id (v.merge (v.billed hours) cur) where
  admin := h.admin
  active ha := h.active (by simpa [User.merge, User.billed] using ha)
  suspended ha := h.suspended (by simpa [User.merge, User.billed] using ha)
  host ha := h.host (by simpa [User.merge, User.billed] using ha)
  credits := by
    have hle : (v.billed hours).creditsGpuHours ≤ max 0 v.creditsGpuHours := by
      simp only [User.billed]
      omega
    rcases col_cases v.creditsGpuHours (v.billed hours).creditsGpuHours cur.creditsGpuHours with
      hcol | ⟨hcol, -⟩
    · simpa only [User.merge, hcol] using h.credits
    · simp only [User.merge, hcol]
      by_cases hpos : (v.billed hours).creditsGpuHours ≤ 0
      · exact Or.inl hpos
      · have hbelow : (v.billed hours).creditsGpuHours ≤ v.creditsGpuHours := by omega
        rcases hv.credits with hzero | ⟨w, hw, hle'⟩ | ⟨caller, p, hc, hle'⟩
        · omega
        · exact Or.inr (Or.inl ⟨w, hw, hbelow.trans hle'⟩)
        · exact Or.inr (Or.inr ⟨caller, p, hc, hbelow.trans hle'⟩)

/-! ## Commits -/

variable {rely : Rely} {refusals : Prop}

/-- A completion leaves the account alone, or bills it by a balance it has read. -/
theorem billed_by_completion (h : (platform app rely refusals).Committing db req tx)
    {bearer : Option Str} {jobId : Uuid} {p : CompleteJobRequest}
    (hreq : req = .completeJob bearer jobId p) {cur : User} (hcur : db.user id = some cur) :
    (tx.view db).user id = some cur ∨ ∃ v hours, AsUser tx v ∧ v.id = id ∧ 0 ≤ hours ∧
      (tx.view db).user id = some (v.merge (v.billed hours) cur) := by
  have hshape := h.shape
  subst hreq
  cases hshape with
  | aside ha => cases ha
  | sets hs => cases hs
  | drain hd => cases hd
  | drained hd => cases hd
  | cancelQueued hc => cases hc
  | requestCancel hc => cases hc
  | cancelAgain hc => cases hc
  | completeJob hn hread hassign hallowed hhours howner hfound hw hlogs =>
    rename_i n j completedAt now owner hours a
    cases owner with
    | none =>
      refine Or.inl ?_
      rw [Db.user_congr (Tx.view_get (by rw [hw]; simp [billWrites, Write.target, Row.key]) db),
        hcur]
    | some v =>
      rw [user_view_flushed (p := [.update _ _]) hw (by simp [Write.target, Row.key])
        (by simp [Write.target, Row.key]) id]
      by_cases hid : v.id = id
      · refine Or.inr ⟨v, hours, ⟨_, howner.1⟩, hid, ?_, ?_⟩
        · rw [hhours]
          exact le_trans (by norm_num) (one_le_billGpuHours _ _ _)
        · rw [if_pos hid, hcur, Option.map_some]
      · exact Or.inl (by rw [if_neg hid, hcur])

/-- What the accounts of a store owe to whom, and the administrators who are still there. -/
structure AllGranted (db₀ : Database) (s : System) (db : Database) : Prop where
  granted : ∀ id u, db.user id = some u → Granted db₀ s id u
  stay : ∀ id, IsAdministrator db₀ id → IsAdministrator db id

/-- A user who has been read in a store was there. -/
theorem AllGranted.of_read (hall : ∀ e ∈ tx.log, AllGranted db₀ s e.db) {w : Cond} {v : User}
    (hread : tx.Read w (.user v)) : Granted db₀ s v.id v := by
  obtain ⟨e, he, -, hget, -⟩ := hread
  exact (hall e he).granted v.id v (Db.user_of_get hget)

/-- **No commit gives an account what it has not been granted.** -/
theorem allGranted_of_committing (h : (platform app rely refusals).Committing db req tx)
    (hreq : Committed s req) (hdb : AllGranted db₀ s db)
    (hall : ∀ e ∈ tx.log, AllGranted db₀ s e.db) : AllGranted db₀ s (tx.view db) := by
  refine ⟨fun id u hu => ?_, fun id hadmin => ?_⟩
  · have hstep := user_step h id
    rw [hu] at hstep
    generalize hb : db.user id = o at hstep
    generalize hv : some u = o' at hstep
    cases hstep with
    | same => exact hdb.granted id u (hb.trans hv.symm)
    | signedUp hreq' hid hfresh =>
      cases hv
      rw [hfresh]
      exact .of_fresh rfl rfl rfl rfl
    | set hs hread hid =>
      rename_i event f data v cur
      cases hv
      have hcur := hdb.granted id cur hb
      cases hs with
      | approveUser => exact hcur.approved hreq
      | suspendUser => exact hcur.suspend hreq
    | billed hreq' hread hallowed howner hv' hid =>
      rename_i cur hours
      -- the balance that was read may be an old one
      rcases billed_by_completion h hreq' hb with hsame | ⟨w, hours', ⟨wh, hw⟩, rfl, hpos, hview⟩
      · rw [hu, Option.some.injEq] at hsame
        rw [hsame]
        exact hdb.granted id cur hb
      · rw [hu, Option.some.injEq] at hview
        rw [hview]
        exact (hdb.granted _ cur hb).bill hpos (AllGranted.of_read hall hw)
  · obtain ⟨u, hu, ha⟩ := hdb.stay id hadmin
    have hstep := user_step h id
    rw [hu] at hstep
    generalize hv : (tx.view db).user id = o at hstep
    cases hstep with
    | same => exact ⟨u, hv, ha⟩
    | set => exact ⟨_, hv, ha⟩
    | billed => exact ⟨_, hv, ha⟩

/-! ## Whole runs -/

theorem allGranted_of_reach (h₀ : s₀.threads = []) (h : Reach (controlPlane app) anyTerms s₀ s) :
    (administering app).Ok s ∧ Seen (AllGranted s₀.db s) s :=
  seen_of_reach (byAdmin_valid app)
    (fun _ _ _ hs _ _ => kept_of_commits (P := administering app) trivial
      (fun _ _ _ _ _ _ => trivial) hs)
    (fun _ _ _ _ hs hF => ⟨fun id u hu => (hF.granted id u hu).step hs, hF.stay⟩)
    (fun s l s' i th hok hseen hs hc => by
      have hlater : ∀ d, AllGranted s₀.db s d → AllGranted s₀.db s' d := fun d hd =>
        ⟨fun id u hu => (hd.granted id u hu).step hs, hd.stay⟩
      exact allGranted_of_committing (hok.committing hc).of_also (committed_of_commits hs hc)
        (hlater _ hseen.db) fun e he =>
          hlater _ (hseen.log i th hc.1 _ (List.mem_cons_self ..) e he))
    h₀ ⟨fun _ _ hu => granted_at_start hu, fun _ hadmin => hadmin⟩ h

/-- The credential a transaction goes by is that of somebody whose account it has read. -/
theorem Shown.read {bearer : Option Str} (h : Shown app tx bearer u) :
    tx.Read (.byKey (.user u.id)) (.user u) := by
  cases h with
  | key _ _ _ _ _ _ hu => exact hu
  | session _ _ _ _ hu => exact hu

/-- Every privilege comes from an administrator. -/
structure FromAdministrators (app : App) (s₀ s : System) : Prop where
  /-- The administrators stay the same. -/
  same : ∀ id, IsAdministrator s.db id ↔ IsAdministrator s₀.db id
  /-- What an account may do it could do from the start, or it has been granted. -/
  granted : ∀ id u, s.db.user id = some u → Granted s₀.db s id u
  /-- What only administrators may have done has been asked for with the credential of one. -/
  asked : ∀ (i : Nat) (th : Pending), s.threads[i]? = some th → ∀ tx ∈ th.ses.past, ∀ caller,
    adminCaller th.req = some caller →
      ∃ u, Shown app tx caller.bearer u ∧ IsAdministrator s₀.db u.id

/-- **Privileges come from administrators**, however requests interleave. -/
theorem privileges_come_from_administrators (app : App) {s₀ s : System} (h₀ : s₀.threads = [])
    (h : Reach (controlPlane app) anyTerms s₀ s) : FromAdministrators app s₀ s := by
  obtain ⟨hok, hseen⟩ := allGranted_of_reach h₀ h
  refine ⟨fun id => ⟨fun ⟨u, hu, hadmin⟩ => (hseen.db.granted id u hu).admin hadmin,
    hseen.db.stay id⟩, hseen.db.granted, fun i th hi tx htx caller hcaller => ?_⟩
  obtain ⟨u, hu, hadmin⟩ := (hok.past i th hi tx htx).2 caller hcaller
  have hall : ∀ e ∈ tx.log, AllGranted s₀.db s e.db :=
    fun e he => hseen.log i th hi tx (List.mem_cons_of_mem _ htx) e he
  exact ⟨u, hu, (AllGranted.of_read hall hu.read).admin hadmin⟩

/-- An account is approved while it tries to submit a job. -/
def grantedRun : List (Label Request) :=
  .spawn (.approveUser { bearer := some "jwt-7".toList } 1
    { canHost := true, creditsGpuHours := 1, credits_nonneg := Int.one_nonneg }) :: runs 0 6 ++
    .spawn (.submitJob sampleCaller hourJob) :: runs 1 2 ++ runs 0 3

theorem privileges_come_from_administrators_at_grantedRun :
    ∃ s, Reach (controlPlane plainApp) anyTerms (idle accountsDb 0) s ∧
      (s.db.user 1).map (fun u => (u.status, u.canHost, u.creditsGpuHours)) =
        some (.active, true, 1) ∧
      FromAdministrators plainApp (idle accountsDb 0) s := by
  obtain ⟨s, hs, huser⟩ := Option.bind_eq_some_iff.1 (show
    (runFrom (controlPlane plainApp) (idle accountsDb 0) grantedRun).bind
      (fun s => (s.db.user 1).map fun u => (u.status, u.canHost, u.creditsGpuHours)) =
        some (.active, true, 1) by decide +kernel)
  have hr := Reach.of_runFrom hs
  exact ⟨s, hr, huser, privileges_come_from_administrators plainApp rfl hr⟩

end GpuNetwork
