import GpuNetwork.Jobs.CancelSignal
import GpuNetwork.Jobs.Scheduling

/-!
# Who cancels a job

A job is cancelled by its owner or by an administrator.  Whoever they are, the transaction
that cancels it has found the credential of the request to be theirs.

* `Shown` — whose credential a transaction has found a bearer string to be.
* `Rightful`, `rightful_valid` — what every cancel has found out before it commits.
* `CancelRequested` — the owner or an administrator has had the job cancelled.
* `Overseen`, `overseen_step` — a job whose cancel is due has been cancelled by one of them.
-/

namespace GpuNetwork

open ReadCommitted ReadCommitted.Spec

/-- The transaction has found the bearer string to be the user's: an API key of theirs, or a
session token that names them. -/
inductive Shown (app : App) (tx : Transaction) (bearer : Option Str) (u : User) : Prop
  | key {token : Str} {k : ApiKey} : bearer = some token → apiKeyPrefix.isPrefixOf token = true →
      tx.Read (.apiKeyByPrefix (lookupPrefix token)) (.apiKey k) → k.revokedAt = none →
      app.checkpw token k.hash = some true → k.userId = u.id →
      tx.Read (.byKey (.user u.id)) (.user u) → Shown app tx bearer u
  | session {token subject : Str} {now : Time} : bearer = some token →
      apiKeyPrefix.isPrefixOf token = false → app.jwtDecode now token = some subject →
      uuid? subject = some u.id → tx.Read (.byKey (.user u.id)) (.user u) →
      Shown app tx bearer u

/-- What a cancel has found out before it commits. -/
def Rightful (app : App) : Request → Transaction → Prop
  | .cancelJob caller id, tx => ∃ u j, Shown app tx caller.bearer u ∧
      tx.Read (.byKey (.job id)) (.job j) ∧ j.userId = u.id
  | .forceKillJob caller _, tx => ∃ u, Shown app tx caller.bearer u ∧ u.isAdmin = true
  | _, _ => True

/-- The specification of the platform with what is said about cancels. -/
def overseeing (app : App) (rely : Rely) : Spec Row Key Cond Request ApiError Response :=
  (platform app rely True).also (Rightful app) fun _ _ _ => True

variable {app : App} {rely : Rely} {db : Database} {req : Request} {tx : Transaction}

theorem Shown.mono {tx tx' : Transaction} {bearer : Option Str} {u : User}
    (hlog : ∀ e ∈ tx.log, e ∈ tx'.log) (h : Shown app tx bearer u) : Shown app tx' bearer u := by
  cases h with
  | key hb hp hk hr hc ho hu => exact .key hb hp (hk.mono hlog) hr hc ho (hu.mono hlog)
  | session hb hp hd hs hu => exact .session hb hp hd hs (hu.mono hlog)

/-! ## The handlers -/

section Handlers

variable {P : Spec Row Key Cond Request ApiError Response} {ses : Conn}

/-- `currentUser` returns the user whose credential it has found the string to be. -/
theorem wp_currentUser_shown {Q : User → Conn → Prop} {bearer : Option Str}
    (hw : ses.tx.writes = []) (hpost : ∀ e past, P.post req (.error e) past)
    (h : ∀ ses' u, ses.Adds ses' [] → Shown app ses'.tx bearer u → Q u ses') :
    P.Wp req (currentUser app bearer) ses Q := by
  cases bearer with
  | none => exact hpost _ _
  | some token =>
    unfold currentUser
    dsimp only
    split
    · rename_i hmark
      refine wp_bind (wp_bind (wp_selectApiKey hw (fun r hr => ?_) (fun s₁ k h₁ hk => ?_)
        (fun s₁ h₁ _ => hpost _ _)))
      · cases r <;> simp_all [Cond.holds]
      · dsimp only
        split
        · exact hpost _ _
        · rename_i hrevoked
          refine wp_bind (wp_orRaise (fun _ => hpost _ _) fun valid hvalid => ?_)
          cases valid with
          | false => exact hpost _ _
          | true =>
            have hw₁ : s₁.tx.writes = [] := by rw [h₁.writes, hw]; rfl
            refine wp_getUserById hw₁ (fun s₂ u h₂ hr hid => ?_) (fun s₂ h₂ _ => hpost _ _)
            refine h s₂ u (h₁.then_reads h₂) (.key rfl hmark (hk.mono h₂.log) ?_ hvalid hid.symm ?_)
            · simpa using hrevoked
            · rw [hid]
              exact hr
    · rename_i hmark
      refine wp_bind (wp_now fun now => wp_ret.2 ?_)
      cases hdecode : app.jwtDecode now token with
      | none => exact hpost _ _
      | some subject =>
        dsimp only
        cases hparse : uuid? subject with
        | none => exact hpost _ _
        | some id =>
          refine wp_bind (wp_getUserById hw (fun s₁ u h₁ hr hid => ?_) (fun s₁ h₁ _ => hpost _ _))
          subst hid
          exact h s₁ u h₁ (.session rfl (Bool.not_eq_true _ ▸ hmark) hdecode hparse hr)

theorem stays_assertTransition (a b : JobStatus) : (assertTransition a b).Emits Stmt.stays := by
  unfold assertTransition
  split <;> trivial

theorem stays_cancelWrite (j : Job) : (cancelWrite j).Emits Stmt.stays := by
  have hflush : ∀ (row : Time → Row) (phase : JobStatus), (do
      let now ← utcNow
      flush (.job j) (row now)
      pure phase : Handler JobStatus).Emits Stmt.stays := fun row phase =>
    Prog.emits_bind (Prog.emits_exec ⟨by simp, by simp⟩) fun now =>
      Prog.emits_bind (stays_flush _ _) fun _ => trivial
  unfold cancelWrite
  split
  · exact hflush _ _
  · split
    · exact hflush _ _
    · trivial
  · exact Prog.emits_bind (stays_assertTransition _ _) fun _ => trivial

/-- The common part of the two cancels commits once, with all it has found out. -/
theorem wp_cancelOrRequestCancel_noted {j : Job} {event : Event} {u : User} {owner : Uuid}
    {target : Option Uuid} {client : Client} {Q : Job → Conn → Prop}
    (hpost : ∀ e past, P.post req (.error e) past) (hQ : ∀ j' ses', Q j' ses')
    (hshape : ∀ tx : Transaction, (∀ e ∈ ses.tx.log, e ∈ tx.log) → P.shape req tx) :
    P.Wp req (cancelOrRequestCancel j event u owner target client) ses Q := by
  have htail : ∀ s₁ : Conn, ses.tx.log <:+ s₁.tx.log → P.Wp req (do
      let phase ← cancelWrite j
      createAudit event (some owner)
        { jobId := some j.id, phase := some phase, actorUserId := some u.id,
          actorEmail := some u.email, targetUserId := target } client
      commit
      refreshJob j.id) s₁ Q := by
    intro s₁ h₁
    refine wp_bind (wp_of_stays (stays_cancelWrite j) hpost fun phase s₂ h₂ => ?_)
    refine wp_bind (wp_of_stays (stays_createAudit _ _ _ _) hpost fun _ s₃ h₃ => ?_)
    refine wp_bind (wp_commitTx (hshape _ fun e he => ?_) ?_)
    · exact h₃.subset (h₂.subset (h₁.subset he))
    · exact wp_refreshJob rfl (hpost _ _) fun s₄ j' _ _ => hQ j' s₄
  unfold cancelOrRequestCancel
  split
  · exact wp_bind (wp_of_stays (stays_assertTransition _ _) hpost fun _ s₁ h₁ => htail s₁ h₁)
  · exact htail ses (List.suffix_refl _)

end Handlers

/-- **Whoever cancels a job may do so.** -/
theorem rightful_valid (app : App) (rely : Rely) :
    (overseeing app rely).Valid (controlPlane app) := by
  refine (platform_valid app rely True).also ⟨fun req => ?_, fun _ _ _ _ => trivial⟩
  have hother : (∀ tx, Rightful app req tx) →
      ((platform app rely True).only (Rightful app) fun _ _ _ => True).Safe req
        ((controlPlane app).handle req) {} := fun h =>
    wp_of_trivial h (fun _ _ => trivial) fun _ _ => trivial
  cases req with
  | cancelJob caller id =>
    refine wp_bind (wp_currentUser_shown rfl (fun _ _ => trivial) fun s₁ u h₁ hu => ?_)
    have hw₁ : s₁.tx.writes = [] := h₁.writes
    refine wp_bind (wp_getJobById hw₁ (fun s₂ j h₂ hj _ => ?_) fun s₂ h₂ => trivial)
    dsimp only
    split
    · trivial
    · rename_i howner
      refine wp_bind (wp_cancelOrRequestCancel_noted (fun _ _ => trivial) (fun _ _ => trivial)
        fun tx hlog => ?_)
      exact ⟨u, j, hu.mono fun e he => hlog e (h₂.log e he), hj.mono hlog, not_not.1 howner⟩
  | forceKillJob caller id =>
    refine wp_bind (wp_bind (wp_currentUser_shown rfl (fun _ _ => trivial) fun s₁ u h₁ hu => ?_))
    have hw₁ : s₁.tx.writes = [] := h₁.writes
    split
    · rename_i hadmin
      refine wp_bind (wp_getJobById hw₁ (fun s₂ j h₂ hj _ => ?_) fun s₂ h₂ => trivial)
      refine wp_bind (wp_cancelOrRequestCancel_noted (fun _ _ => trivial) (fun _ _ => trivial)
        fun tx hlog => ?_)
      exact ⟨u, hu.mono fun e he => hlog e (h₂.log e he), hadmin⟩
    · trivial
  | _ => exact hother fun _ => trivial

/-! ## Cancels that are due -/

/-- The owner of the job or an administrator has had it cancelled. -/
def CancelRequested (app : App) (s : System) (id : Uuid) : Prop :=
  ∃ (i : Nat) (th : Pending) (tx : Transaction) (event : Event), s.threads[i]? = some th ∧
    tx ∈ th.ses.past ∧ Cancels th.req id event ∧ Rightful app th.req tx

/-- The cancel of the job is due: it has not ended, and carries the request. -/
def CancelDue (db : Database) (id : Uuid) : Prop :=
  ∃ j, db.job id = some j ∧ j.status.isTerminal = false ∧ j.cancelRequestedAt.isSome = true

/-- **The cancel of a job is due** because it was, or because it has just been requested. -/
theorem due_of_committing {refusals : Prop} (h : (platform app rely refusals).Committing db req tx)
    {id : Uuid} (hdue : CancelDue (tx.view db) id) :
    CancelDue db id ∨ ∃ event, Cancels req id event := by
  obtain ⟨j', hj', hterm, hflag⟩ := hdue
  have hstep := job_step h id
  rw [hj'] at hstep
  generalize hb : db.job id = o at hstep
  cases hstep with
  | same => exact Or.inl ⟨j', hb, hterm, hflag⟩
  | submitted hreq hu hid hj => rw [hj] at hflag; cases hflag
  | claimed hreq hn hdrain hmiss hclaim hfound hw =>
    exact Or.inl ⟨_, hb, by rw [status_of_claimable hclaim]; rfl, hflag⟩
  | completed hreq hn hread hassign hallowed hw =>
    rw [status_merge_terminated (ne_of_allowed hallowed), isTerminal_completionTarget] at hterm
    cases hterm
  | cancelled hreq hread hstatus hw => exact Or.inr ⟨_, hreq⟩
  | cancelRequested hreq hread hstatus hnone hw => exact Or.inr ⟨_, hreq⟩
  | nodeDeleted hreq hmiss hw => exact Or.inl ⟨_, hb, hterm, hflag⟩

theorem cancelRequested_step {s s' : System} {l : Label Request} {id : Uuid}
    (hs : step (controlPlane app) s l = some s') (h : CancelRequested app s id) :
    CancelRequested app s' id := by
  obtain ⟨i, th, tx, event, hi, htx, hc, hr⟩ := h
  obtain ⟨th', hi', hreq, htx'⟩ := past_later hs hi htx
  exact ⟨i, th', tx, event, hi', htx', hreq ▸ hc, hreq ▸ hr⟩

/-- A cancel that commits has been requested by someone who may. -/
theorem cancelRequested_of_commits {s s' : System} {l : Label Request} {i : Nat}
    {th th' : Pending} (hok : (overseeing app rely).Ok s) (hc : Commits s l i th)
    (hths : s'.threads = s.threads.set i th') (hreq : th'.req = th.req)
    (hses : th'.ses = th.ses.committed) {id : Uuid} {event : Event}
    (hcancel : Cancels th.req id event) : CancelRequested app s' id := by
  have hlt : i < s.threads.length := (List.getElem?_eq_some_iff.1 hc.1).1
  refine ⟨i, th', th.ses.tx, event, ?_, ?_, hreq ▸ hcancel, hreq ▸ (hok.committing hc).shape.2⟩
  · rw [hths]
    exact List.getElem?_set_self hlt
  · rw [hses]
    simp [Session.committed]

/-- Every cancel that is due has been requested by someone who may. -/
def Overseen (app : App) (s : System) : Prop := ∀ id, CancelDue s.db id → CancelRequested app s id

/-- **No cancel comes due by itself.** -/
theorem overseen_step {s s' : System} {l : Label Request} (hok : (overseeing app rely).Ok s)
    (hI : Overseen app s) (hs : step (controlPlane app) s l = some s') : Overseen app s' := by
  intro id hdue
  rcases hok.db_cases hs with hdb | ⟨i, th, th', hc, hcom, hdb, hths, hreq, hses⟩
  · rw [hdb] at hdue
    exact cancelRequested_step hs (hI id hdue)
  · rw [hdb] at hdue
    rcases due_of_committing hcom.of_also hdue with hdue | ⟨event, hcancel⟩
    · exact cancelRequested_step hs (hI id hdue)
    · exact cancelRequested_of_commits hok hc hths hreq hses hcancel

end GpuNetwork
