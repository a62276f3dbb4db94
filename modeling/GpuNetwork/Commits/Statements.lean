import GpuNetwork.Commits.Shape

/-!
# The rules of the repositories

What each repository function leaves behind, as rules for `Spec.Wp`: which rows the
transaction has read or missed, and which writes it has added.

* `wp_selectJob`, `wp_selectNode`, … — the queries.
* `wp_flush`, `wp_createAudit`, `wp_refresh` — the parts every handler ends with.
* `wp_currentUser`, `wp_currentNode` — authentication.
-/

namespace GpuNetwork

open ReadCommitted ReadCommitted.Spec

/-- A request is in a session of the control plane. -/
abbrev Conn := Session Row Key Cond

variable {P : Spec Row Key Cond Request ApiError Response} {req : Request} {ses : Conn}
  {w : Cond}

/-! ## Queries -/

theorem wp_selectUser {Q : Option User → Conn → Prop} (hw : ses.tx.writes = [])
    (htable : ∀ r, w.holds r = true → ∃ u, r = .user u)
    (hsome : ∀ ses' u, ses.Adds ses' [] → ses'.tx.Read w (.user u) → w.holds (.user u) = true →
      Q (some u) ses')
    (hnone : ∀ ses', ses.Adds ses' [] → ses'.tx.Missed w → Q none ses') :
    P.Wp req (selectUser w) ses Q := by
  refine wp_select hw (fun ses' r ha hr hh => ?_) (fun ses' ha hm => ?_)
  · obtain ⟨u, rfl⟩ := htable r hh
    exact hsome ses' u ha hr hh
  · exact hnone ses' ha hm

theorem wp_selectNode {Q : Option Node → Conn → Prop} (hw : ses.tx.writes = [])
    (htable : ∀ r, w.holds r = true → ∃ n, r = .node n)
    (hsome : ∀ ses' n, ses.Adds ses' [] → ses'.tx.Read w (.node n) → w.holds (.node n) = true →
      Q (some n) ses')
    (hnone : ∀ ses', ses.Adds ses' [] → ses'.tx.Missed w → Q none ses') :
    P.Wp req (selectNode w) ses Q := by
  refine wp_select hw (fun ses' r ha hr hh => ?_) (fun ses' ha hm => ?_)
  · obtain ⟨n, rfl⟩ := htable r hh
    exact hsome ses' n ha hr hh
  · exact hnone ses' ha hm

theorem wp_selectJob {Q : Option Job → Conn → Prop} (hw : ses.tx.writes = [])
    (htable : ∀ r, w.holds r = true → ∃ j, r = .job j)
    (hsome : ∀ ses' j, ses.Adds ses' [] → ses'.tx.Read w (.job j) → w.holds (.job j) = true →
      Q (some j) ses')
    (hnone : ∀ ses', ses.Adds ses' [] → ses'.tx.Missed w → Q none ses') :
    P.Wp req (selectJob w) ses Q := by
  refine wp_select hw (fun ses' r ha hr hh => ?_) (fun ses' ha hm => ?_)
  · obtain ⟨j, rfl⟩ := htable r hh
    exact hsome ses' j ha hr hh
  · exact hnone ses' ha hm

theorem wp_selectApiKey {Q : Option ApiKey → Conn → Prop} (hw : ses.tx.writes = [])
    (htable : ∀ r, w.holds r = true → ∃ k, r = .apiKey k)
    (hsome : ∀ ses' k, ses.Adds ses' [] → ses'.tx.Read w (.apiKey k) → Q (some k) ses')
    (hnone : ∀ ses', ses.Adds ses' [] → ses'.tx.Missed w → Q none ses') :
    P.Wp req (selectApiKey w) ses Q := by
  refine wp_select hw (fun ses' r ha hr hh => ?_) (fun ses' ha hm => ?_)
  · obtain ⟨k, rfl⟩ := htable r hh
    exact hsome ses' k ha hr
  · exact hnone ses' ha hm

theorem wp_getUserById {Q : Option User → Conn → Prop} {id : Uuid} (hw : ses.tx.writes = [])
    (hsome : ∀ ses' u, ses.Adds ses' [] → ses'.tx.Read (.byKey (.user id)) (.user u) →
      u.id = id → Q (some u) ses')
    (hnone : ∀ ses', ses.Adds ses' [] → ses'.tx.Missed (.byKey (.user id)) → Q none ses') :
    P.Wp req (getUserById id) ses Q := by
  refine wp_selectUser hw (fun r hr => ?_) (fun ses' u ha hr hh => hsome ses' u ha hr ?_) hnone
  · obtain ⟨u, hu, -⟩ := Row.eq_user_of_key (of_decide_eq_true hr)
    exact ⟨u, hu⟩
  · simpa [Cond.holds, Row.key] using hh

theorem wp_getNodeById {Q : Option Node → Conn → Prop} {id : Uuid} (hw : ses.tx.writes = [])
    (hsome : ∀ ses' n, ses.Adds ses' [] → ses'.tx.Read (.byKey (.node id)) (.node n) →
      n.id = id → Q (some n) ses')
    (hnone : ∀ ses', ses.Adds ses' [] → Q none ses') :
    P.Wp req (getNodeById id) ses Q := by
  refine wp_selectNode hw (fun r hr => ?_) (fun ses' n ha hr hh => hsome ses' n ha hr ?_)
    (fun ses' ha _ => hnone ses' ha)
  · obtain ⟨n, hn, -⟩ := Row.eq_node_of_key (of_decide_eq_true hr)
    exact ⟨n, hn⟩
  · simpa [Cond.holds, Row.key] using hh

theorem wp_getJobById {Q : Option Job → Conn → Prop} {id : Uuid} (hw : ses.tx.writes = [])
    (hsome : ∀ ses' j, ses.Adds ses' [] → ses'.tx.Read (.byKey (.job id)) (.job j) →
      j.id = id → Q (some j) ses')
    (hnone : ∀ ses', ses.Adds ses' [] → Q none ses') :
    P.Wp req (getJobById id) ses Q := by
  refine wp_selectJob hw (fun r hr => ?_) (fun ses' j ha hr hh => hsome ses' j ha hr ?_)
    (fun ses' ha _ => hnone ses' ha)
  · obtain ⟨j, hj, -⟩ := Row.eq_job_of_key (of_decide_eq_true hr)
    exact ⟨j, hj⟩
  · simpa [Cond.holds, Row.key] using hh

theorem wp_getRunningForNode {Q : Option Job → Conn → Prop} {id : Uuid} (hw : ses.tx.writes = [])
    (hsome : ∀ ses' j, ses.Adds ses' [] → Q (some j) ses')
    (hnone : ∀ ses', ses.Adds ses' [] → ses'.tx.Missed (.runningForNode id) → Q none ses') :
    P.Wp req (getRunningForNode id) ses Q := by
  refine wp_selectJob hw (fun r hr => ?_) (fun ses' j ha _ _ => hsome ses' j ha) hnone
  cases r <;> simp_all [Cond.holds]

/-! ## Flushes -/

/-- A flush adds the write of the changed columns, if there are any. -/
theorem wp_flush {Q : Unit → Conn → Prop} {old new : Row}
    (hfound : ∀ w ∈ ses.tx.writes, w.target ≠ old.key)
    (hstale : ∀ db, P.Since req ses.tx db → db.get old.key = none →
      P.post req (.error .staleData) ses.past)
    (h : ∀ ses', ses.Adds ses' (flushed old new) → Flushed ses'.tx old new →
      (∀ k ∈ newRefs old new, (∀ w ∈ ses.tx.writes, w.target ≠ k) → ses'.tx.Found k) →
      Q () ses') :
    P.Wp req (flush old new) ses Q := by
  unfold flush
  by_cases hne : new = old
  · subst hne
    rw [if_pos rfl]
    refine h ses ?_ (Or.inl rfl) (fun k hk => ?_)
    · rw [flushed, if_pos rfl]
      exact Session.Adds.refl
    · simp [newRefs] at hk
  · rw [if_neg hne]
    refine wp_update (fun ses' ha hf hrefs => ?_) (fun ses' db ha hsince hnone => ?_)
    · refine h ses' ?_ (Or.inr (hf hfound)) hrefs
      rw [flushed, if_neg hne]
      exact ha
    · rw [schema_key, Tx.view_get hfound] at hnone
      have hpost := hstale db hsince hnone
      rw [← ha.past] at hpost
      exact hpost

/-- A flush that changes something adds its write. -/
theorem wp_flush_of_ne {Q : Unit → Conn → Prop} {old new : Row} (hne : new ≠ old)
    (hfound : ∀ w ∈ ses.tx.writes, w.target ≠ old.key)
    (hstale : ∀ db, P.Since req ses.tx db → db.get old.key = none →
      P.post req (.error .staleData) ses.past)
    (h : ∀ ses', ses.Adds ses' [.update old new] → ses'.tx.Found old.key →
      (∀ k ∈ newRefs old new, (∀ w ∈ ses.tx.writes, w.target ≠ k) → ses'.tx.Found k) →
      Q () ses') :
    P.Wp req (flush old new) ses Q := by
  refine wp_flush hfound hstale fun ses' ha hf hrefs => ?_
  rw [flushed, if_neg hne] at ha
  exact h ses' ha (hf.resolve_left hne) hrefs

/-- An audit row of the given content goes in. -/
theorem wp_createAudit {Q : Unit → Conn → Prop} {event : Event} {userId : Option Uuid}
    {data : EventData} {client : Client}
    (hfresh : ∀ w ∈ ses.tx.writes, ∀ id, w.target ≠ Key.auditLog id)
    (h : ∀ ses' a, ses.Adds ses' [.insert (.auditLog a)] → Logs ses'.tx a event userId data →
      Q () ses') :
    P.Wp req (createAudit event userId data client) ses Q := by
  refine wp_random fun id => wp_txTime fun t => wp_insert fun ses' ha hf => ?_
  exact h ses' _ ha ⟨rfl, rfl, rfl, hf fun w hw => hfresh w hw _⟩

theorem wp_refresh {Q : Row → Conn → Prop} {k : Key} (hw : ses.tx.writes = [])
    (hpost : P.post req (.error .refreshFailed) ses.past)
    (h : ∀ ses' r, ses.Adds ses' [] → r.key = k → Q r ses') :
    P.Wp req (refresh k) ses Q := by
  refine wp_select hw (fun ses' r ha _ hh => ?_) (fun ses' ha _ => ?_)
  · exact h ses' r ha (of_decide_eq_true hh)
  · rw [← ha.past] at hpost
    exact hpost

theorem wp_refreshUser {Q : User → Conn → Prop} {id : Uuid} (hw : ses.tx.writes = [])
    (hpost : P.post req (.error .refreshFailed) ses.past)
    (h : ∀ ses' u, ses.Adds ses' [] → Q u ses') : P.Wp req (refreshUser id) ses Q := by
  refine wp_bind (wp_refresh hw hpost fun ses' r ha hk => ?_)
  obtain ⟨u, rfl, -⟩ := Row.eq_user_of_key hk
  exact h ses' u ha

theorem wp_refreshNode {Q : Node → Conn → Prop} {id : Uuid} (hw : ses.tx.writes = [])
    (hpost : P.post req (.error .refreshFailed) ses.past)
    (h : ∀ ses' n, ses.Adds ses' [] → n.id = id → Q n ses') :
    P.Wp req (refreshNode id) ses Q := by
  refine wp_bind (wp_refresh hw hpost fun ses' r ha hk => ?_)
  obtain ⟨n, rfl, hid⟩ := Row.eq_node_of_key hk
  exact h ses' n ha hid

theorem wp_refreshJob {Q : Job → Conn → Prop} {id : Uuid} (hw : ses.tx.writes = [])
    (hpost : P.post req (.error .refreshFailed) ses.past)
    (h : ∀ ses' j, ses.Adds ses' [] → j.id = id → Q j ses') :
    P.Wp req (refreshJob id) ses Q := by
  refine wp_bind (wp_refresh hw hpost fun ses' r ha hk => ?_)
  obtain ⟨j, rfl, hid⟩ := Row.eq_job_of_key hk
  exact h ses' j ha hid

/-- The commit of a transaction that is in shape. -/
theorem wp_commitTx {Q : Unit → Conn → Prop} (hs : P.shape req ses.tx)
    (h : Q () ses.committed) : P.Wp req commit ses Q :=
  wp_commit hs h

/-! ## Authentication -/

variable {app : App}

theorem wp_orRaise {α : Type} {Q : α → Conn → Prop} {x : Option α}
    (hpost : x = none → P.post req (.error .bcryptRaised) ses.past)
    (h : ∀ a, x = some a → Q a ses) : P.Wp req (orRaise x) ses Q := by
  cases x with
  | none => exact hpost rfl
  | some a => exact h a rfl

/-- `currentUser` reads the user it returns and writes nothing. -/
theorem wp_currentUser {Q : User → Conn → Prop} {bearer : Option Str} (hw : ses.tx.writes = [])
    (hpost : ∀ e, P.post req (.error e) ses.past)
    (h : ∀ ses' u, ses.Adds ses' [] → AsUser ses'.tx u → Q u ses') :
    P.Wp req (currentUser app bearer) ses Q := by
  have hstop : ∀ {ses' : Conn} {e : ApiError}, ses.Adds ses' [] →
      P.post req (.error e) ses'.past := fun ha => by rw [ha.past]; exact hpost _
  cases bearer with
  | none => exact hpost _
  | some token =>
    unfold currentUser
    dsimp only
    split
    · refine wp_bind (wp_bind (wp_selectApiKey hw (fun r hr => ?_) (fun s₁ k h₁ _ => ?_)
        (fun s₁ h₁ _ => hstop h₁)))
      · cases r <;> simp_all [Cond.holds]
      · dsimp only
        split
        · exact hstop h₁
        · refine wp_bind (wp_orRaise (fun _ => hstop h₁) fun valid _ => ?_)
          cases valid with
          | false => exact hstop h₁
          | true =>
            have hw₁ : s₁.tx.writes = [] := by rw [h₁.writes, hw]; rfl
            exact wp_getUserById hw₁ (fun s₂ u h₂ hr _ => h s₂ u (h₁.then_reads h₂) ⟨_, hr⟩)
              (fun s₂ h₂ _ => hstop (h₁.then_reads h₂))
    · refine wp_bind (wp_now fun now => ?_)
      refine wp_ret.2 ?_
      cases app.jwtDecode now token with
      | none => exact hpost _
      | some subject =>
        dsimp only
        cases uuid? subject with
        | none => exact hpost _
        | some id =>
          exact wp_bind (wp_getUserById hw (fun s₁ u h₁ hr _ => h s₁ u h₁ ⟨_, hr⟩)
            (fun s₁ h₁ _ => hstop h₁))

theorem wp_requireAdmin {Q : User → Conn → Prop} {bearer : Option Str}
    (hw : ses.tx.writes = []) (hpost : ∀ e, P.post req (.error e) ses.past)
    (h : ∀ ses' u, ses.Adds ses' [] → AsUser ses'.tx u → Q u ses') :
    P.Wp req (requireAdmin app bearer) ses Q := by
  refine wp_bind (wp_currentUser hw hpost fun s₁ u h₁ hu => ?_)
  cases u.isAdmin with
  | true => exact h s₁ u h₁ hu
  | false =>
    have hp := hpost .adminRequired
    rw [← h₁.past] at hp
    exact hp

theorem wp_cursorBound {Q : Option (Time × Uuid) → Conn → Prop} {cursor : Option Str}
    (hpost : ∀ e, P.post req (.error e) ses.past) (h : ∀ bound, Q bound ses) :
    P.Wp req (cursorBound app cursor) ses Q := by
  unfold cursorBound
  split
  · exact h none
  · exact h none
  · split
    · dsimp only
      split
      · exact h _
      · exact hpost _
    all_goals exact hpost _

theorem wp_sendTexts {Q : Unit → Conn → Prop} {texts : List Str}
    (hpost : ∀ e, P.post req (.error e) ses.past) (h : Q () ses) :
    P.Wp req (sendTexts texts) ses Q := by
  unfold sendTexts
  split
  · exact h
  · exact hpost _

/-- `currentNode` reads the node whose agent token it accepts, and writes nothing. -/
theorem wp_currentNode {Q : Node → Conn → Prop} {bearer : Option Str} (hw : ses.tx.writes = [])
    (hpost : ∀ e, P.post req (.error e) ses.past)
    (h : ∀ ses' n, ses.Adds ses' [] → AsNode app ses'.tx bearer n → Q n ses') :
    P.Wp req (currentNode app bearer) ses Q := by
  have hstop : ∀ {ses' : Conn} {e : ApiError}, ses.Adds ses' [] →
      P.post req (.error e) ses'.past := fun ha => by rw [ha.past]; exact hpost _
  cases bearer with
  | none => exact hpost _
  | some token =>
    unfold currentNode authenticateAgent
    dsimp only
    split
    · refine wp_bind (wp_bind (wp_selectNode hw (fun r hr => ?_) (fun s₁ n h₁ hr _ => ?_)
        (fun s₁ h₁ _ => hstop h₁)))
      · cases r <;> simp_all [Cond.holds]
      · dsimp only
        cases hhash : n.agentTokenHash with
        | none => exact hstop h₁
        | some hash =>
          refine wp_bind (wp_orRaise (fun _ => hstop h₁) fun valid hvalid => ?_)
          cases valid with
          | false => exact hstop h₁
          | true => exact h s₁ n h₁ ⟨token, hash, rfl, hhash, hvalid, hr⟩
    · exact hpost _

/-! ## Records that stay known -/

theorem AsUser.mono {tx tx' : Transaction} {u : User} (hlog : ∀ e ∈ tx.log, e ∈ tx'.log)
    (h : AsUser tx u) : AsUser tx' u := by
  obtain ⟨w, hr⟩ := h
  exact ⟨w, hr.mono hlog⟩

theorem AsNode.mono {tx tx' : Transaction} {bearer : Option Str} {n : Node}
    (hlog : ∀ e ∈ tx.log, e ∈ tx'.log) (h : AsNode app tx bearer n) :
    AsNode app tx' bearer n := by
  obtain ⟨token, hash, hb, hh, hc, hr⟩ := h.bearer
  exact ⟨token, hash, hb, hh, hc, hr.mono hlog⟩

end GpuNetwork
