import GpuNetwork.Accounts.Authentication
import GpuNetwork.Jobs.Credits

/-!
# What a suspended account may do

Submitting a job and generating an API key ask for an active account; creating a claim
token asks for a host, and `require_admin` for an administrator, whatever the status.

* `privileges` — what the three services have looked up when they commit.
* `Succeeds` — a request of the account gets what it takes an active account for.
* `StatusHolds` — from a suspension or a signup to the next approval no request does.
-/

namespace GpuNetwork

open ReadCommitted ReadCommitted.Spec

/-- The account in whose name the write adds a job, an API key or a claim token. -/
def grantee : Write Row Key → Option Uuid
  | .insert (.job j) => some j.userId
  | .insert (.apiKey k) => some k.userId
  | .insert (.claimToken c) => some c.userId
  | _ => none

/-- What the three services that need an active account ask of it. -/
def privilegeCheck : Request → Option (User → Bool)
  | .submitJob _ _ => some fun v => decide (v.status = .active)
  | .generateKey _ _ => some fun v => decide (v.status = .active)
  | .createClaimToken _ => some fun v => v.canHost
  | _ => none

/-- The writes are in the name of an account that was looked up and has passed the check. -/
def InNameOf (check : User → Bool) (tx : Transaction) : Prop :=
  ∃ v ∈ accountsRead tx, check v = true ∧ ∀ w ∈ tx.writes, ∀ u, grantee w = some u → u = v.id

/-- The specification of the three services. -/
def privileges : Spec Row Key Cond Request ApiError Response where
  shape req tx := ∀ check, privilegeCheck req = some check → InNameOf check tx
  post _ _ _ := True

/-- The account is there and active. -/
def isActive (db : Database) (u : Uuid) : Bool :=
  (db.user u).any fun x => decide (x.status = .active)

/-! ## Steps that matter -/

/-- A suspension of the account commits, or its signup. -/
def Deactivates (u : Uuid) (s : System) (l : Label Request) : Prop :=
  ∃ i th, Commits s l i th ∧ ((∃ caller, th.req = .suspendUser caller u) ∨
    ∃ client p x, th.req = .signup client p ∧ .insert (.user x) ∈ th.ses.tx.writes ∧ x.id = u)

/-- An approval of the account commits. -/
def Approves (u : Uuid) (s : System) (l : Label Request) : Prop :=
  ∃ i th, Commits s l i th ∧ ∃ caller p, th.req = .approveUser caller u p

/-- In the step a request of the account commits a job, an API key or a claim token, or
gets past `require_admin`. -/
def Succeeds (u : Uuid) (s : System) (l : Label Request) (s' : System) : Prop :=
  (∃ i th, Commits s l i th ∧ (privilegeCheck th.req).isSome ∧
    ∃ w ∈ th.ses.tx.writes, grantee w = some u) ∨
  ∃ v : User, v.id = u ∧ PassesAdmin v s s'

/-- The account is neither a host nor an administrator while it is not active. -/
def unprivileged (db : Database) (u : Uuid) : Bool :=
  (db.user u).all fun x => decide (x.status = .active) || (!x.canHost && !x.isAdmin)

/-- What the services go by of the account is as it was read. -/
def asRead (db : Database) (v : User) : Bool :=
  (db.user v.id).any fun x => decide (x.status = v.status) && decide (x.canHost = v.canHost)

/-- The request goes by the account: one of the three services, or a suspension of it. -/
def goesBy (u : Uuid) : Request → Bool
  | .suspendUser _ id => decide (id = u)
  | req => (privilegeCheck req).isSome

/-- In no state the account has privileges while it is not active, and what a request goes by
of the account has not changed since the request read it. -/
def StatusKept (u : Uuid) : Terms Row Request ApiError Response := fun s l s' =>
  unprivileged s.db u = true ∧ OnCommits (fun s _ th => goesBy u th.req = true →
    ∀ v ∈ accountsRead th.ses.tx, v.id = u → asRead s.db v = true) s l s'

variable {app : App} {rely : Rely} {refusals : Prop} {db : Database} {req : Request}
  {tx : Transaction} {u : Uuid}

/-! ## What the services look up -/

/-- A row in the name of the account, and the audit row. -/
theorem inNameOf_of_writes {check : User → Bool} {v : User} {r : Row} {a : AuditLog}
    (hv : AsUser tx v) (hcheck : check v = true)
    (hw : tx.writes = [.insert r, .insert (.auditLog a)]) (hr : grantee (.insert r) = some v.id) :
    InNameOf check tx := by
  refine ⟨v, mem_accountsRead.2 hv, hcheck, fun w hmem u hu => ?_⟩
  rw [hw, List.mem_cons, List.mem_singleton] at hmem
  rcases hmem with rfl | rfl
  · rw [hr, Option.some.injEq] at hu
    exact hu.symm
  · cases hu

/-- A program of no interest is safe. -/
theorem safe_privileges_of_none (h : privilegeCheck req = none) :
    privileges.Safe req (handle app req) {} := by
  refine wp_of_trivial (fun tx check hcheck => ?_) (fun _ _ => trivial) fun _ _ => trivial
  rw [h] at hcheck
  cases hcheck

theorem inNameOf_submitJob (caller : Caller) (p : SubmitJobRequest) :
    privileges.Safe (.submitJob caller p) (submitJob app caller p) {} := by
  refine wp_bind (wp_currentUser rfl (fun e => trivial) fun s₁ v h₁ hv => ?_)
  have hw₁ : s₁.tx.writes = [] := h₁.writes
  split
  · trivial
  rename_i hactive
  split
  · trivial
  refine wp_bind (wp_bind (wp_random fun id => wp_ret.2 (wp_bind (wp_txTime fun t =>
    wp_ret.2 (wp_bind (wp_insert fun s₂ h₂ _ => wp_ret.2 ?_))))))
  have hw₂ : s₂.tx.writes = _ := h₂.writes
  rw [hw₁, List.nil_append] at hw₂
  refine wp_bind (wp_createAudit ?_ fun s₃ a h₃ _ => ?_)
  · simp [hw₂, Write.target, Row.key]
  have hw₃ : s₃.tx.writes = _ := h₃.writes
  rw [hw₂] at hw₃
  refine wp_bind (wp_commitTx ?_ (wp_bind (wp_refreshJob rfl trivial fun s₄ j h₄ _ => trivial)))
  intro check hcheck
  cases hcheck
  exact inNameOf_of_writes (hv.mono fun e he => h₃.log e (h₂.log e he))
    (decide_eq_true (not_not.1 hactive)) hw₃ rfl

theorem inNameOf_generateKey (caller : Caller) (p : GenerateKeyRequest) :
    privileges.Safe (.generateKey caller p) (generateKey app caller p) {} := by
  refine wp_bind (wp_currentUser rfl (fun e => trivial) fun s₁ v h₁ hv => ?_)
  have hw₁ : s₁.tx.writes = [] := h₁.writes
  split
  · trivial
  rename_i hactive
  refine wp_bind (wp_generateToken (fun _ _ _ => trivial) fun t => wp_bind (wp_bind (wp_random
    fun id => wp_ret.2 (wp_bind (wp_txTime fun ct => wp_ret.2 (wp_bind (wp_insert
    fun s₂ h₂ _ => wp_ret.2 ?_)))))))
  have hw₂ : s₂.tx.writes = _ := h₂.writes
  rw [hw₁, List.nil_append] at hw₂
  refine wp_bind (wp_createAudit ?_ fun s₃ a h₃ _ => ?_)
  · simp [hw₂, Write.target, Row.key]
  have hw₃ : s₃.tx.writes = _ := h₃.writes
  rw [hw₂] at hw₃
  refine wp_bind (wp_commitTx ?_ (wp_bind (wp_refresh rfl trivial fun s₄ r h₄ _ => ?_)))
  · intro check hcheck
    cases hcheck
    exact inNameOf_of_writes (hv.mono fun e he => h₃.log e (h₂.log e he))
      (decide_eq_true (not_not.1 hactive)) hw₃ rfl
  · cases r <;> trivial

theorem inNameOf_createClaimToken (caller : Caller) :
    privileges.Safe (.createClaimToken caller) (createClaimToken app caller) {} := by
  refine wp_bind (wp_currentUser rfl (fun e => trivial) fun s₁ v h₁ hv => ?_)
  have hw₁ : s₁.tx.writes = [] := h₁.writes
  split
  · rename_i hhost
    refine wp_bind (wp_generateToken (fun _ _ _ => trivial) fun t => wp_bind (wp_now fun now =>
      wp_ret.2 (wp_bind (wp_bind (wp_random fun id => wp_ret.2 (wp_bind (wp_txTime fun ct =>
      wp_ret.2 (wp_bind (wp_insert fun s₂ h₂ _ => wp_ret.2 ?_)))))))))
    have hw₂ : s₂.tx.writes = _ := h₂.writes
    rw [hw₁, List.nil_append] at hw₂
    refine wp_bind (wp_createAudit ?_ fun s₃ a h₃ _ => ?_)
    · simp [hw₂, Write.target, Row.key]
    have hw₃ : s₃.tx.writes = _ := h₃.writes
    rw [hw₂] at hw₃
    refine wp_bind (wp_commitTx ?_ (wp_bind (wp_refresh rfl trivial fun s₄ r h₄ _ => ?_)))
    · intro check hcheck
      cases hcheck
      exact inNameOf_of_writes (hv.mono fun e he => h₃.log e (h₂.log e he)) hhost hw₃ rfl
    · cases r <;> trivial
  · trivial

theorem privileges_valid (app : App) : privileges.Valid (controlPlane app) where
  handle req := by
    cases hcheck : privilegeCheck req with
    | none => exact safe_privileges_of_none hcheck
    | some check =>
      cases req with
      | submitJob caller p => exact inNameOf_submitJob caller p
      | generateKey caller p => exact inNameOf_generateKey caller p
      | createClaimToken caller => exact inNameOf_createClaimToken caller
      | _ => cases hcheck
  refused _ _ _ _ := trivial

/-! ## The status in the store -/

/-- A suspension that goes by the status in the store leaves the account inactive. -/
theorem inactive_of_suspend (h : (platform app rely refusals).Committing db req tx)
    {caller : Caller} (hreq : req = .suspendUser caller u)
    (hkept : ∀ v ∈ accountsRead tx, v.id = u → asRead db v = true) :
    isActive (tx.view db) u = false := by
  have hshape := h.shape
  subst hreq
  cases hshape with
  | aside ha => cases ha
  | drain hd => cases hd
  | drained hd => cases hd
  | cancelQueued hc => cases hc
  | requestCancel hc => cases hc
  | cancelAgain hc => cases hc
  | sets hs hid hv hf hw hflush hlogs =>
    rename_i id event f data v a
    cases hs
    rw [isActive, user_view_flushed (p := []) hw (by simp) (by simp [Write.target, Row.key]),
      if_pos hid]
    cases hx : db.user u with
    | none => rfl
    | some x =>
      by_cases hsusp : v.status = .suspended
      · -- the suspension changes nothing, and the account is as it has found it
        have hsame := hkept v (mem_accountsRead.2 hv) hid
        simp only [asRead, hid, hx, Option.any_some, Bool.and_eq_true, decide_eq_true_eq] at hsame
        simp [User.merge, col, hsusp, hsame.1]
      · simp [User.merge, col_of_ne (Ne.symm hsusp)]

/-- A signup leaves the account inactive. -/
theorem inactive_of_signup (h : (platform app rely refusals).Committing db req tx)
    {client : Client} {p : SignupRequest} (hreq : req = .signup client p) {x : User}
    (hins : .insert (.user x) ∈ tx.writes) (hid : x.id = u) : isActive (tx.view db) u = false := by
  have hshape := h.shape
  subst hreq
  cases hshape with
  | aside ha => cases ha
  | sets hs => cases hs
  | drain hd => cases hd
  | drained hd => cases hd
  | cancelQueued hc => cases hc
  | requestCancel hc => cases hc
  | cancelAgain hc => cases hc
  | signup hw hu hfresh hlogs =>
    rename_i v a
    rw [hw] at hins
    simp only [List.mem_cons, Write.insert.injEq, Row.user.injEq, reduceCtorEq, List.not_mem_nil,
      or_false] at hins
    subst hins
    have hnone : db.get (.user u) = none := by rw [← hid]; exact h.get_of_fresh hfresh
    have hview : (tx.view db).user u = some x := by
      apply Db.user_of_get
      rw [get_view_of_first hw (by simp [Write.target, Row.key]), hnone]
      simp [Write.on, Row.key, hid]
    rw [isActive, hview, hu]
    rfl

/-- A commit that does not approve the account leaves it inactive. -/
theorem inactive_of_committing (h : (platform app rely refusals).Committing db req tx)
    (hdb : isActive db u = false) (happ : ∀ caller p, req ≠ .approveUser caller u p) :
    isActive (tx.view db) u = false := by
  have hstep := user_step h u
  unfold isActive at hdb ⊢
  generalize db.user u = o at hstep hdb
  generalize (tx.view db).user u = o' at hstep
  cases hstep with
  | same => exact hdb
  | signedUp hreq hid hu => rw [hu]; rfl
  | set hs hv hid =>
    rename_i event f data v cur
    cases hs with
    | approveUser => exact absurd rfl (happ _ _)
    | suspendUser =>
      simp only [Option.any_some, decide_eq_false_iff_not] at hdb
      by_cases hsusp : v.status = .suspended
      · simp [User.merge, col, hsusp, hdb]
      · simp [User.merge, col_of_ne (Ne.symm hsusp)]
  | billed hreq hread hallowed howner hv hid =>
    simpa [User.merge, User.billed] using hdb

/-! ## Runs -/

/-- An account that is not active does not get what it takes an active one for. -/
theorem not_succeeds_of_inactive {T : Terms Row Request ApiError Response} {s₀ s s' : System}
    {l : Label Request} (h₀ : s₀.threads = []) (hr : Reach (controlPlane app) T s₀ s)
    (hs : step (controlPlane app) s l = some s') (ht : StatusKept u s l s')
    (hu : isActive s.db u = false) : ¬ Succeeds u s l s' := by
  -- an account that is there has no privileges
  have hnone : ∀ x, s.db.user u = some x → x.status ≠ .active ∧ x.canHost = false ∧
      x.isAdmin = false := by
    intro x hx
    have hflags := ht.1
    simp only [isActive, hx, Option.any_some, decide_eq_false_iff_not] at hu
    simp only [unprivileged, hx, Option.all_some, hu, decide_false, Bool.false_or,
      Bool.and_eq_true, Bool.not_eq_true'] at hflags
    exact ⟨hu, hflags⟩
  rintro (⟨i, th, hc, hpriv, w, hw, hgrant⟩ | ⟨v, hv, hpass⟩)
  · have hok : (privileges).Ok s := ok_reach (privileges_valid app)
      (fun s l s' hs _ _ => kept_of_commits (P := privileges) trivial
        (fun _ _ _ _ _ _ => trivial) hs) (ok_of_no_threads h₀) hr
    obtain ⟨check, hcheck⟩ := Option.isSome_iff_exists.1 hpriv
    obtain ⟨v, hread, hpassed, hname⟩ := (hok.committing hc).shape check hcheck
    have hid : u = v.id := hname w hw u hgrant
    -- the account that was looked up is the one in the store
    have hgoes : goesBy u th.req = true := by
      unfold goesBy
      split
      · rename_i hreq
        rw [hreq] at hcheck
        cases hcheck
      · exact hpriv
    obtain ⟨x, hx, hsame⟩ := (Option.any_eq_true _ _).1 (ht.2 i th hc hgoes v hread hid.symm)
    rw [Bool.and_eq_true, decide_eq_true_eq, decide_eq_true_eq] at hsame
    rw [← hid] at hx
    obtain ⟨hstatus, hhost, -⟩ := hnone x hx
    cases hreq : th.req with
    | submitJob caller p =>
      rw [hreq] at hcheck
      cases hcheck
      exact hstatus (hsame.1.trans (of_decide_eq_true hpassed))
    | generateKey caller p =>
      rw [hreq] at hcheck
      cases hcheck
      exact hstatus (hsame.1.trans (of_decide_eq_true hpassed))
    | createClaimToken caller =>
      rw [hreq] at hcheck
      cases hcheck
      exact absurd (hhost.symm.trans (hsame.2.trans hpassed)) Bool.false_ne_true
    | _ => rw [hreq] at hcheck; cases hcheck
  · obtain ⟨hadmin, hx⟩ := admin_of_passes h₀ hr hs hpass
    rw [hv] at hx
    rw [(hnone v hx).2.2] at hadmin
    cases hadmin

/-- From a suspension of the account, or its signup, to its next approval it does not get
what it takes an active account for. -/
def StatusHolds (app : App) (T : Terms Row Request ApiError Response) (s₀ : System) (u : Uuid) :
    Prop :=
  ∀ (s₁ s₂ s₃ s₄ : System) (l m : Label Request), Reach (controlPlane app) T s₀ s₁ →
    step (controlPlane app) s₁ l = some s₂ → T s₁ l s₂ → Deactivates u s₁ l →
    Reach (controlPlane app) (fun s l s' => T s l s' ∧ ¬ Approves u s l) s₂ s₃ →
    step (controlPlane app) s₃ m = some s₄ → T s₃ m s₄ → ¬ Succeeds u s₃ m s₄

/-- **An account that is not active has no privileges**, in every run in which it is neither
a host nor an administrator while it is not active, and no request goes by a status of it
that is out of date. -/
theorem inactive_accounts_have_no_privileges (app : App) (db : Database) (clock : Time)
    (u : Uuid) : StatusHolds app (StatusKept u) (idle db clock) u := by
  intro s₁ s₂ s₃ s₄ l m hr hl ht hd hr' hm ht'
  have hok : (onward app).Ok s₁ := onward_ok rfl hr
  have hok₂ : (onward app).Ok s₂ := onward_ok rfl (hr.tail hl ht)
  have hinactive : isActive s₂.db u = false := by
    obtain ⟨i, th, hc, ⟨caller, hreq⟩ | ⟨client, p, x, hreq, hins, hid⟩⟩ := hd
    · rw [db_of_commits hc hl]
      exact inactive_of_suspend (hok.committing hc) hreq
        (ht.2 i th hc (by simp [goesBy, hreq]))
    · rw [db_of_commits hc hl]
      exact inactive_of_signup (hok.committing hc) hreq hins hid
  -- the account stays inactive up to the step
  have hkept : (onward app).Ok s₃ ∧ isActive s₃.db u = false := by
    refine hr'.invariant (fun s => (onward app).Ok s ∧ isActive s.db u = false)
      (fun s l s' hs hst hkeep => ⟨ok_step (platform_valid app _ _) hs.1 hst
        (kept_of_commits (P := onward app) trivial
          (fun _ _ _ hcom _ _ => onward_of_committing hcom) hst), ?_⟩) ⟨hok₂, hinactive⟩
    rcases hs.1.db_cases hst with he | ⟨j, tj, tj', hcj, hcom, hdb, -⟩
    · rw [he]; exact hs.2
    · rw [hdb]
      exact inactive_of_committing hcom hs.2
        fun caller p he => hkeep.2 ⟨j, tj, hcj, caller, p, he⟩
  exact not_succeeds_of_inactive rfl
    ((hr.tail hl ht).trans (hr'.mono fun _ _ _ h => h.1)) hm ht' hkept.2

/-! ## Concrete runs -/

/-- An administrator. -/
def sampleChief : User :=
  { sampleUser with id := 7, email := "admin@example.org".toList, isAdmin := true }

/-- The administrator suspends the account, up to the commit. -/
def suspendedRun : List (Label Request) :=
  .spawn (.suspendUser { bearer := some "jwt-7".toList } 1) :: runs 0 7

/-- An account that is no host, and an administrator. -/
def guestDb : Database :=
  (Db.empty.insert (.user { sampleUser with canHost := false })).insert (.user sampleChief)

/-- The account tries the three services, and is about to try the dashboard. -/
def refusedRun : List (Label Request) :=
  runs 0 2 ++ .spawn (.submitJob sampleCaller sampleSubmission) :: runs 1 2 ++
    .spawn (.generateKey sampleCaller { name := "key".toList, name_length := by decide }) ::
      runs 2 2 ++
    .spawn (.createClaimToken sampleCaller) :: runs 3 2 ++ [.spawn (.dashboard sampleCaller)]

/-- The status codes of the errors that have been answered. -/
def errorCodes (s : System) : List (Option Nat) :=
  s.threads.map fun th =>
    match th.prog with
    | .throw e => some e.statusCode
    | _ => none

/-- The step meets the condition on the account, as a check. -/
def keepsStatus (u : Uuid) (s : System) (l : Label Request) : Bool :=
  unprivileged s.db u && passes (fun s _ th => !goesBy u th.req ||
    (accountsRead th.ses.tx).all fun v => decide (v.id ≠ u) || asRead s.db v) s l

theorem keepsStatus_sound {s s' : System} {l : Label Request} (h : keepsStatus u s l = true) :
    StatusKept u s l s' := by
  obtain ⟨hflags, hpass⟩ := Bool.and_eq_true_iff.1 h
  refine ⟨hflags, fun i th hc hgoes v hv hid => ?_⟩
  have hcheck := passes_sound hpass hc
  simp only [hgoes, Bool.not_true, Bool.false_or, List.all_eq_true] at hcheck
  simpa [hid] using hcheck v hv

/-- The request approves no account. -/
def approvesNobody : Request → Bool
  | .approveUser _ _ _ => false
  | _ => true

theorem not_approves_of_passes {s : System} {l : Label Request}
    (h : passes (fun _ _ th => approvesNobody th.req) s l = true) : ¬ Approves u s l := by
  rintro ⟨i, th, hc, caller, p, hreq⟩
  have hcheck := passes_sound h hc
  rw [hreq] at hcheck
  cases hcheck

/-- Whom the request suspends; nobody has the identifier 0. -/
def suspensionOf : Request → Uuid
  | .suspendUser _ id => id
  | _ => 0

theorem suspends_of_target {req : Request} (h : suspensionOf req = 1) :
    ∃ caller, req = .suspendUser caller 1 := by
  unfold suspensionOf at h
  split at h
  · rename_i caller id
    exact ⟨caller, by rw [h]⟩
  · cases h

theorem inactive_accounts_have_no_privileges_at_refusedRun :
    ∃ s₁ s₂ s₃ s₄ l m, Reach (controlPlane plainApp) (StatusKept 1) (idle guestDb 0) s₁ ∧
      step (controlPlane plainApp) s₁ l = some s₂ ∧ StatusKept 1 s₁ l s₂ ∧
      Deactivates 1 s₁ l ∧
      Reach (controlPlane plainApp) (fun s l s' => StatusKept 1 s l s' ∧ ¬ Approves 1 s l) s₂ s₃ ∧
      errorCodes s₃ = [none, some 403, some 403, some 403, none] ∧
      step (controlPlane plainApp) s₃ m = some s₄ ∧ StatusKept 1 s₃ m s₄ ∧
      ¬ Succeeds 1 s₃ m s₄ := by
  obtain ⟨s₁, h₁, hrest⟩ := Option.bind_eq_some_iff.1 (show
    (runWhile (controlPlane plainApp) (keepsStatus 1) (idle guestDb 0) suspendedRun).bind
      (fun s₁ => (s₁.committing (.run 0 0)).bind fun x =>
        (step (controlPlane plainApp) s₁ (.run 0 0)).bind fun s₂ =>
          (runWhile (controlPlane plainApp) (fun s l => keepsStatus 1 s l &&
            passes (fun _ _ th => approvesNobody th.req) s l) s₂ refusedRun).bind fun s₃ =>
              (step (controlPlane plainApp) s₃ (.run 4 4)).map fun _ =>
                (suspensionOf x.2.req,
                  keepsStatus 1 s₁ (.run 0 0), errorCodes s₃, keepsStatus 1 s₃ (.run 4 4))) =
      some (1, true, [none, some 403, some 403, some 403, none], true) by decide +kernel)
  obtain ⟨⟨i, th⟩, hc, hrest⟩ := Option.bind_eq_some_iff.1 hrest
  obtain ⟨s₂, h₂, hrest⟩ := Option.bind_eq_some_iff.1 hrest
  obtain ⟨s₃, h₃, hrest⟩ := Option.bind_eq_some_iff.1 hrest
  obtain ⟨s₄, h₄, hfacts⟩ := Option.map_eq_some_iff.1 hrest
  simp only [Prod.mk.injEq] at hfacts
  obtain ⟨htarget, hkept, hcodes, hkept'⟩ := hfacts
  have hr₁ : Reach (controlPlane plainApp) (StatusKept 1) (idle guestDb 0) s₁ :=
    (Reach.of_runWhile h₁).mono fun _ _ _ ht => keepsStatus_sound ht.1
  have hr₃ : Reach (controlPlane plainApp)
      (fun s l s' => StatusKept 1 s l s' ∧ ¬ Approves 1 s l) s₂ s₃ :=
    (Reach.of_runWhile h₃).mono fun _ _ _ ht => by
      obtain ⟨hstatus, hnobody⟩ := Bool.and_eq_true_iff.1 ht.1
      exact ⟨keepsStatus_sound hstatus, not_approves_of_passes hnobody⟩
  have hd : Deactivates 1 s₁ (.run 0 0) :=
    ⟨i, th, committing_eq_some_iff.1 hc, Or.inl (suspends_of_target htarget)⟩
  exact ⟨s₁, s₂, s₃, s₄, _, _, hr₁, h₂, keepsStatus_sound hkept, hd, hr₃, hcodes, h₄,
    keepsStatus_sound hkept', inactive_accounts_have_no_privileges plainApp guestDb 0 1 s₁ s₂ s₃
      s₄ _ _ hr₁ h₂ (keepsStatus_sound hkept) hd hr₃ h₄ (keepsStatus_sound hkept')⟩

/-- A host and an administrator. -/
def hostDb : Database := (Db.empty.insert (.user sampleUser)).insert (.user sampleChief)

/-- **A suspended host can still create claim tokens.** -/
theorem suspended_host_creates_claim_token : ¬ StatusHolds plainApp anyTerms (idle hostDb 0) 1 := by
  intro h
  obtain ⟨s₁, h₁, hrest⟩ := Option.bind_eq_some_iff.1 (show
    (runFrom (controlPlane plainApp) (idle hostDb 0) suspendedRun).bind (fun s₁ =>
      (s₁.committing (.run 0 0)).bind fun x => (step (controlPlane plainApp) s₁ (.run 0 0)).bind
        fun s₂ => (runChecked (controlPlane plainApp) (fun _ _ _ => decide False) s₂
          (.spawn (.createClaimToken sampleCaller) :: runs 1 11)).bind fun s₃ =>
            (s₃.committing (.run 1 1)).bind fun y =>
              (step (controlPlane plainApp) s₃ (.run 1 1)).map fun _ =>
                (suspensionOf x.2.req,
                  (privilegeCheck y.2.req).isSome,
                  y.2.ses.tx.writes.any fun w => decide (grantee w = some 1))) =
      some (1, true, true) by
    decide +kernel)
  obtain ⟨⟨i, th⟩, hc, hrest⟩ := Option.bind_eq_some_iff.1 hrest
  obtain ⟨s₂, h₂, hrest⟩ := Option.bind_eq_some_iff.1 hrest
  obtain ⟨s₃, h₃, hrest⟩ := Option.bind_eq_some_iff.1 hrest
  obtain ⟨⟨j, tj⟩, hcj, hrest⟩ := Option.bind_eq_some_iff.1 hrest
  obtain ⟨s₄, h₄, hall⟩ := Option.map_eq_some_iff.1 hrest
  obtain ⟨htarget, hboth⟩ := Prod.mk.inj hall
  obtain ⟨hpriv, hgrant⟩ := Prod.mk.inj hboth
  obtain ⟨w, hw, hname⟩ := List.any_eq_true.1 hgrant
  -- nothing is committed between the suspension and the claim token
  have hquiet : Reach (controlPlane plainApp)
      (fun s l s' => anyTerms s l s' ∧ ¬ Approves 1 s l) s₂ s₃ :=
    (Reach.of_runChecked (C := fun _ _ _ => False) h₃).mono
      fun s l s' hnone => ⟨trivial, fun ⟨k, tk, hck, _⟩ => hnone.1 k tk hck⟩
  exact h s₁ s₂ s₃ s₄ _ _ (Reach.of_runFrom h₁) h₂ trivial
    ⟨i, th, committing_eq_some_iff.1 hc, Or.inl (suspends_of_target htarget)⟩ hquiet h₄ trivial
    (Or.inl ⟨j, tj, committing_eq_some_iff.1 hcj, hpriv, w, hw, of_decide_eq_true hname⟩)

end GpuNetwork
