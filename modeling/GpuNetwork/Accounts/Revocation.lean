import GpuNetwork.Accounts.Credentials
import GpuNetwork.Commits.AllOrNothing
import GpuNetwork.Store.Seen

/-!
# Taking credentials back

What the answers to the revocation of an API key and to the deletion of a node stand for.

* `revoked_of_answer`, `takenBack_of_revocation` — the key is revoked from then on.
* `deleted_of_answer`, `takenBack_of_deletion` — the node has been gone at some point, and
  with it the agent token that had been issued to it.
-/

namespace GpuNetwork

open ReadCommitted ReadCommitted.Spec

variable {app : App} {db : Database} {T : Terms Row Request ApiError Response} {clock : Time}
  {s s' : System}

/-! ## API keys -/

/-- What the request for a revocation goes by when it is answered: it has committed, or it
has found the key revoked. -/
def RevocationGoesBy (id : Uuid) (ses : Conn) : Prop :=
  ses.past ≠ [] ∨ ∃ k, ses.tx.Read (.byKey (.apiKey id)) (.apiKey k) ∧ k.revokedAt ≠ none

theorem goesBy_revokeKey {req : Request} (caller : Caller) (id : Uuid) :
    (Spec.lax : Spec Row Key Cond Request ApiError Response).Wp req (revokeKey app caller id) {}
      fun _ ses => RevocationGoesBy id ses :=
  wp_revokeKey (fun _ _ => trivial)
    (fun _ _ _ _ _ _ _ _ _ _ => ⟨trivial, fun _ ses' hpast => Or.inl (by rw [hpast]; simp)⟩)
    fun k _ hread hsome => Or.inr ⟨k, hread, hsome⟩

/-- The commit of a revocation leaves the key revoked. -/
theorem revoked_of_committing {caller : Caller} {id : Uuid} {tx : Transaction}
    (h : (issuing app).Committing db (.revokeKey caller id) tx) : RevokedKey (tx.view db) id := by
  obtain ⟨k, now, a, hid, hnone, hfound, hw⟩ := h.shape.2
  obtain ⟨r, hr⟩ := h.exists_of_found hfound
  obtain ⟨cur, rfl⟩ : ∃ cur, r = .apiKey cur := by
    have hkey : r.key = .apiKey id := Db.key_of_get hr
    cases r with
    | apiKey cur => exact ⟨cur, rfl⟩
    | _ => cases hkey
  have hget : (tx.view db).get (.apiKey id) =
      some (Row.merge (.apiKey k) (.apiKey { k with revokedAt := some now }) (.apiKey cur)) := by
    rw [get_view_of_first hw (by simp [Write.target, Row.key]), hr]
    exact Write.on_update_of_some (congrArg Key.apiKey hid)
  refine ⟨_, Db.mem_of_get hget, Key.apiKey.inj (Db.key_of_get hget), ?_⟩
  show col k.revokedAt (some now) cur.revokedAt ≠ none
  rw [hnone, col_of_ne (by simp)]
  simp

/-- **A key is revoked from the answer to its revocation on**, whether the request has revoked
it or has found it revoked. -/
theorem revoked_of_answer (h : Reach (controlPlane app) T (idle db clock) s) {i : Nat}
    {th : Pending} (hi : s.threads[i]? = some th) {caller : Caller} {id : Uuid}
    (hreq : th.req = .revokeKey caller id) {r : Response} (hp : th.prog = .ret r) :
    RevokedKey s.db id := by
  have hstays : ∀ {s s'}, Reach (controlPlane app) T (idle db clock) s →
      Reach (controlPlane app) T s s' → RevokedKey s.db id → RevokedKey s'.db id := by
    rintro s s' hr hr' ⟨k, hk, rfl, hrevoked⟩
    obtain ⟨k', hk', hcred, hstill⟩ := keyStays_of_reach (issuing_ok rfl hr) hr' k.id k
      (Db.get_of_mem hk)
    exact ⟨k', Db.mem_of_get hk', Key.apiKey.inj (Db.key_of_get hk'), hstill hrevoked⟩
  refine answers_of_reach (P := Spec.lax) Spec.lax_valid (fun _ _ _ hs _ _ => Spec.lax_kept hs)
    (Q := fun req _ ses => ∀ caller, req = .revokeKey caller id → RevocationGoesBy id ses)
    (F := fun req _ s => ∀ caller, req = .revokeKey caller id → RevokedKey s.db id)
    (fun req => ?_) (fun s i th _ hr hi hQ caller hreq => ?_)
    (fun s l s' req _ hr hs ht hF caller hreq => ?_) rfl h hi hp caller hreq
  · by_cases hrevoke : ∃ caller, req = .revokeKey caller id
    · obtain ⟨caller, rfl⟩ := hrevoke
      exact wp_mono (fun _ _ hgoes _ _ => hgoes) (goesBy_revokeKey caller id)
    · exact wp_of_trivial (fun _ => trivial) (fun _ _ => trivial)
        fun _ _ caller he => absurd ⟨caller, he⟩ hrevoke
  · rcases hQ caller hreq with hpast | ⟨k, ⟨e, he, -, hk, hkey⟩, hrevoked⟩
    · -- it was revoked in the commit
      obtain ⟨tx, htx⟩ := List.exists_mem_of_ne_nil _ hpast
      obtain ⟨s₁, l, s₂, th₁, hr₁, hs₁, ht₁, hc, hreq₁, rfl, hr₂⟩ := commit_of_past rfl hr hi htx
      have hcom := (issuing_ok rfl hr₁).committing hc
      rw [hreq₁, hreq] at hcom
      refine hstays (hr₁.tail hs₁ ht₁) hr₂ ?_
      rw [db_of_commits hc hs₁]
      exact revoked_of_committing hcom
    · -- it had been revoked when it was read
      obtain ⟨s₁, hdb, hr₁, hr₂⟩ := (looked_at_earlier rfl hr).log i th hi _
        (List.mem_cons_self ..) e he
      refine hstays hr₁ hr₂ ⟨k, ?_, ?_, hrevoked⟩
      · rw [hdb]
        exact Db.mem_of_get hk
      · exact Key.apiKey.inj (of_decide_eq_true hkey)
  · exact hstays hr (Reach.refl.tail hs ht) (hF caller hreq)

theorem takenBack_of_revocation (h : Reach (controlPlane app) T (idle db clock) s) {i : Nat}
    {th : Pending} (hi : s.threads[i]? = some th) {caller : Caller} {id userId : Uuid}
    (hreq : th.req = .revokeKey caller id) {r : Response} (hp : th.prog = .ret r) {token : Str}
    (hissued : IssuedKey app s token userId id) : TakenBack app s token :=
  Or.inl ⟨userId, id, hissued, revoked_of_answer h hi hreq hp⟩

/-! ## Agent tokens -/

/-- The commit of a deletion leaves no node, or it had found none. -/
theorem gone_of_shape {caller : Caller} {id : Uuid} {tx : Transaction}
    (h : Shape app (.deleteNode caller id) tx) (db : Database) :
    (tx.view db).node id = none ∨ ∃ e ∈ tx.log, e.db.node id = none := by
  obtain ⟨a, e, he, ⟨view, -, -, -, hw⟩ | ⟨hnone, -⟩⟩ := shape_of_deleteNode h
  · refine Or.inl ?_
    rw [node_view_delete hw id, if_pos rfl]
  · exact Or.inr ⟨e, he, hnone⟩

/-- **A node has been gone at some point before the answer to its deletion.** -/
theorem deleted_of_answer (h : Reach (controlPlane app) T (idle db clock) s) {i : Nat}
    {th : Pending} (hi : s.threads[i]? = some th) {caller : Caller} {id : Uuid}
    (hreq : th.req = .deleteNode caller id) {r : Response} (hp : th.prog = .ret r) :
    ∃ s₁, Reach (controlPlane app) T (idle db clock) s₁ ∧ Reach (controlPlane app) T s₁ s ∧
      s₁.db.node id = none := by
  have hall := allOrNothing_of_run rfl (h.mono fun _ _ _ _ => trivial) hi
  have hpast : th.ses.past ≠ [] := by
    intro hnil
    have hidle := hall.done r hp hnil
    rw [hreq] at hidle
    exact hidle
  obtain ⟨tx, htx⟩ := List.exists_mem_of_ne_nil _ hpast
  obtain ⟨s₁, l, s₂, th₁, hr₁, hs₁, ht₁, hc, hreq₁, rfl, hr₂⟩ := commit_of_past rfl h hi htx
  have hcom := (onward_ok rfl hr₁).committing hc
  rw [hreq₁, hreq] at hcom
  rcases gone_of_shape hcom.shape s₁.db with hnone | ⟨e, he, hnone⟩
  · refine ⟨s₂, hr₁.tail hs₁ ht₁, hr₂, ?_⟩
    rw [db_of_commits hc hs₁]
    exact hnone
  · obtain ⟨s₀, hdb, hr₀, hr₀'⟩ := (looked_at_earlier rfl hr₁).log i th₁ hc.1 _
      (List.mem_cons_self ..) e he
    exact ⟨s₀, hr₀, hr₀'.trans ((Reach.refl.tail hs₁ ht₁).trans hr₂), by rw [hdb]; exact hnone⟩

/-- The agent token of the node has been taken back by then, and is rejected since. -/
theorem takenBack_of_deletion (h : Reach (controlPlane app) T (idle db clock) s) {i : Nat}
    {th : Pending} (hi : s.threads[i]? = some th) {caller : Caller} {id : Uuid}
    (hreq : th.req = .deleteNode caller id) {r : Response} (hp : th.prog = .ret r) :
    ∃ s₁, Reach (controlPlane app) T (idle db clock) s₁ ∧ Reach (controlPlane app) T s₁ s ∧
      ∀ n token, n.id = id → IssuedAgent app s₁ token n → TakenBack app s₁ token := by
  obtain ⟨s₁, hr₁, hr₂, hnone⟩ := deleted_of_answer h hi hreq hp
  exact ⟨s₁, hr₁, hr₂, fun n token hid hissued => Or.inr ⟨n, hissued, by rw [hid]; exact hnone⟩⟩

end GpuNetwork
