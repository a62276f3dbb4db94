import GpuNetwork.Commits.Accounts

/-!
# Who passes `require_admin`

A request authenticates by looking up an account, and `require_admin` ends it there unless
the account has the flag.  What the flag is worth is not looked at.

* `accountsRead` — the accounts a transaction has looked up.
* `Gate` — a program that only looks up an account, and goes on only with one that passes
  a check; `gate_requireAdmin`.
* `Guarded`, `Guarded.moves` — an admin route stays behind its gate.
* `admin_of_passes` — who gets past it is an administrator in the store.
-/

namespace GpuNetwork

open ReadCommitted ReadCommitted.Spec

/-- The accounts the queries of a transaction have found, as they were. -/
def accountsRead (tx : Transaction) : List User :=
  tx.log.flatMap fun e =>
    match e.stmt with
    | .select w => usersOf (matching e.db w)
    | _ => []

/-- The routes behind `require_admin`. -/
def isAdminRoute : Request → Bool
  | .approveUser _ _ _ => true
  | .suspendUser _ _ => true
  | .listAuditEvents _ _ _ _ => true
  | .forceDrainNode _ _ => true
  | .forceKillJob _ _ => true
  | .listUsers _ _ _ _ _ => true
  | .getUserDetail _ _ => true
  | .getAuditEvent _ _ => true
  | .dashboard _ => true
  | _ => false

variable {app : App} {α β : Type}

/-! ## The gate -/

/-- The program looks up an account and nothing else about accounts, and one that fails
the check ends it with the error. -/
inductive Gate (ok : User → Bool) (e : ApiError) : Handler α → Prop
  | stops {x : Handler α} : x.Finished = true → Gate ok e x
  | now {k : Time → Handler α} : (∀ t, Gate ok e (k t)) → Gate ok e (.stmt .now k)
  | other {w : Cond} {k : Option Row → Handler α} : (∀ v, w.holds (.user v) = false) →
      (∀ r, Gate ok e (k r)) → Gate ok e (.stmt (.select w) k)
  | account {id : Uuid} {k : Option Row → Handler α} : Gate ok e (k none) →
      (∀ v, ok v = false → k (some (.user v)) = .throw e) →
      Gate ok e (.stmt (.select (.byKey (.user id))) k)

theorem gate_getUserById {ok : User → Bool} {e : ApiError} {id : Uuid} {g : Option User → Handler α}
    (hnone : Gate ok e (g none)) (hg : ∀ v, ok v = false → g (some v) = .throw e) :
    Gate ok e (getUserById id >>= g) :=
  Gate.account hnone hg

/-- `ApiKeyService.authenticate` looks up the account of a key that it accepts. -/
theorem gate_authenticateKey {ok : User → Bool} {e : ApiError} {token : Str}
    {g : Option User → Handler α}
    (hnone : Gate ok e (g none)) (hg : ∀ v, ok v = false → g (some v) = .throw e) :
    Gate ok e (authenticateKey app token >>= g) := by
  rw [authenticateKey, Prog.bind_assoc]
  refine Gate.other (fun v => rfl) fun r => ?_
  have hkey : ∀ k : ApiKey, Gate ok e ((if k.revokedAt.isSome then pure none
      else do
        let valid ← orRaise (app.checkpw token k.hash)
        if valid then getUserById k.userId else pure none) >>= g) := by
    intro k
    split
    · exact hnone
    · rw [Prog.bind_assoc]
      cases app.checkpw token k.hash with
      | none => exact Gate.stops rfl
      | some valid =>
        cases valid with
        | false => exact hnone
        | true => exact gate_getUserById hnone hg
  cases r with
  | none => exact hnone
  | some row =>
    cases row with
    | apiKey k => exact hkey k
    | _ => exact hnone

/-- `get_current_user` looks up the account it goes on with. -/
theorem gate_currentUser {ok : User → Bool} {e : ApiError} {bearer : Option Str}
    {g : User → Handler α}
    (hg : ∀ v, ok v = false → g v = .throw e) :
    Gate ok e (currentUser app bearer >>= g) := by
  cases bearer with
  | none => exact Gate.stops rfl
  | some token =>
    unfold currentUser
    dsimp only
    split
    · rw [Prog.bind_assoc]
      exact gate_authenticateKey (Gate.stops rfl) hg
    · rw [Prog.bind_assoc]
      refine Gate.now fun now => ?_
      dsimp only [Prog.bind]
      cases app.jwtDecode now token with
      | none => exact Gate.stops rfl
      | some subject =>
        dsimp only
        cases uuid? subject with
        | none => exact Gate.stops rfl
        | some id =>
          dsimp only
          rw [Prog.bind_assoc]
          exact gate_getUserById (Gate.stops rfl) hg

/-- `require_admin` ends a request of an account that is no admin. -/
theorem gate_requireAdmin {bearer : Option Str} {g : User → Handler α} :
    Gate (·.isAdmin) .adminRequired (requireAdmin app bearer >>= g) := by
  rw [requireAdmin, Prog.bind_assoc]
  refine gate_currentUser fun v hv => ?_
  simp only [hv]
  rfl

theorem gate_of_isAdminRoute {req : Request} (h : isAdminRoute req = true) :
    Gate (·.isAdmin) .adminRequired (handle app req) := by
  cases req with
  | approveUser caller id p => exact gate_requireAdmin
  | suspendUser caller id => exact gate_requireAdmin
  | listAuditEvents caller f cursor limit => exact gate_requireAdmin
  | forceDrainNode caller id => exact gate_requireAdmin
  | forceKillJob caller id => exact gate_requireAdmin
  | listUsers caller status query cursor limit => exact gate_requireAdmin
  | getUserDetail caller id => exact gate_requireAdmin
  | getAuditEvent caller id => exact gate_requireAdmin
  | dashboard caller => exact gate_requireAdmin
  | _ => cases h

/-! ## No way back -/

/-- The program does not roll its transaction back. -/
abbrev Calm (x : Handler α) : Prop := x.Emits fun q => q ≠ .rollback

theorem Reads.calm {x : Handler α} (h : Reads x) : Calm x :=
  Prog.Emits.mono (fun q hq => by rintro rfl; cases hq) h

theorem calm_flush (old new : Row) : Calm (flush old new) := by
  unfold flush
  split
  · trivial
  · refine Prog.emits_bind (Prog.emits_exec (by simp)) fun matched => ?_
    cases matched <;> trivial

theorem calm_createAudit (event : Event) (userId : Option Uuid) (data : EventData)
    (client : Client) : Calm (createAudit event userId data client) :=
  ⟨by simp, fun id => ⟨by simp, fun createdAt => ⟨by simp, fun _ => trivial⟩⟩⟩

theorem calm_commit : Calm commit := ⟨by simp, fun _ => trivial⟩

theorem calm_refresh (k : Key) : Calm (refresh k) := by
  refine Prog.emits_bind (Prog.emits_exec (by simp)) fun r => ?_
  cases r <;> trivial

theorem calm_refreshUser (id : Uuid) : Calm (refreshUser id) := by
  refine Prog.emits_bind (calm_refresh _) fun r => ?_
  cases r <;> trivial

theorem calm_refreshNode (id : Uuid) : Calm (refreshNode id) := by
  refine Prog.emits_bind (calm_refresh _) fun r => ?_
  cases r <;> trivial

theorem calm_refreshJob (id : Uuid) : Calm (refreshJob id) := by
  refine Prog.emits_bind (calm_refresh _) fun r => ?_
  cases r <;> trivial

theorem calm_getUserFor (admin : User) (id : Uuid) : Calm (getUserFor admin id) := by
  refine Prog.emits_bind (reads_selectUser _).calm fun u => ?_
  cases u with
  | none => trivial
  | some u =>
    dsimp only
    split <;> trivial

theorem calm_setNodeStatus (node : Node) (status : NodeStatus) :
    Calm (setNodeStatus node status) :=
  calm_flush _ _

theorem calm_drain (node : Node) (event : Event) (u : User) (target : Option Uuid)
    (client : Client) : Calm (drain node event u target client) := by
  unfold drain
  split
  · exact Prog.emits_bind (calm_setNodeStatus _ _) fun _ => calm_createAudit _ _ _ _
  · trivial

theorem calm_nodeDetail (node : Node) : Calm (nodeDetail node) :=
  Prog.emits_bind (reads_selectJob _).calm fun current => ⟨by simp, fun now => trivial⟩

theorem calm_assertTransition (a b : JobStatus) : Calm (assertTransition a b) := by
  unfold assertTransition
  split <;> trivial

theorem calm_cancelWrite (job : Job) : Calm (cancelWrite job) := by
  unfold cancelWrite
  split
  · exact Prog.emits_bind (Prog.emits_exec (by simp)) fun now =>
      Prog.emits_bind (calm_flush _ _) fun _ => trivial
  · split
    · exact Prog.emits_bind (Prog.emits_exec (by simp)) fun now =>
      Prog.emits_bind (calm_flush _ _) fun _ => trivial
    · trivial
  · exact Prog.emits_bind (calm_assertTransition _ _) fun _ => trivial

theorem calm_cancelOrRequestCancel (job : Job) (event : Event) (u : User) (owner : Uuid)
    (target : Option Uuid) (client : Client) :
    Calm (cancelOrRequestCancel job event u owner target client) := by
  have hrest : Calm (do
      let phase ← cancelWrite job
      createAudit event (some owner)
        { jobId := some job.id, phase := some phase, actorUserId := some u.id,
          actorEmail := some u.email, targetUserId := target }
        client
      commit
      refreshJob job.id) :=
    Prog.emits_bind (calm_cancelWrite _) fun phase => Prog.emits_bind (calm_createAudit _ _ _ _)
      fun _ => Prog.emits_bind calm_commit fun _ => calm_refreshJob _
  unfold cancelOrRequestCancel
  split
  · exact Prog.emits_bind (calm_assertTransition _ _) fun _ => hrest
  · exact hrest

theorem calm_requireAdmin (bearer : Option Str) : Calm (requireAdmin app bearer) :=
  (reads_requireAdmin bearer).calm

theorem calm_of_isAdminRoute {req : Request} (h : isAdminRoute req = true) :
    Calm (handle app req) := by
  cases req with
  | approveUser caller id p =>
    exact Prog.emits_bind (calm_requireAdmin _) fun admin =>
      Prog.emits_bind (calm_getUserFor _ _) fun u => Prog.emits_bind (calm_flush _ _) fun _ =>
      Prog.emits_bind (calm_createAudit _ _ _ _) fun _ => Prog.emits_bind calm_commit fun _ =>
      Prog.emits_bind (calm_refreshUser _) fun _ => trivial
  | suspendUser caller id =>
    exact Prog.emits_bind (calm_requireAdmin _) fun admin =>
      Prog.emits_bind (calm_getUserFor _ _) fun u => Prog.emits_bind (calm_flush _ _) fun _ =>
      Prog.emits_bind (calm_createAudit _ _ _ _) fun _ => Prog.emits_bind calm_commit fun _ =>
      Prog.emits_bind (calm_refreshUser _) fun _ => trivial
  | listAuditEvents caller f cursor limit =>
    exact Prog.emits_bind (calm_requireAdmin _) fun admin =>
      Prog.emits_bind (reads_cursorBound _).calm fun decoded =>
      Prog.emits_bind (reads_listAudit _ _ _).calm fun rows =>
      Prog.emits_bind (calm_createAudit _ _ _ _) fun _ => Prog.emits_bind calm_commit fun _ =>
      trivial
  | forceDrainNode caller id =>
    refine Prog.emits_bind (calm_requireAdmin _) fun admin =>
      Prog.emits_bind (Prog.emits_bind (Prog.emits_exec (by simp)) fun r => ?_) fun n => ?_
    · split <;> trivial
    · cases n with
      | none => trivial
      | some n =>
        exact Prog.emits_bind (calm_drain _ _ _ _ _) fun _ => Prog.emits_bind calm_commit fun _ =>
          Prog.emits_bind (calm_refreshNode _) fun _ => calm_nodeDetail _
  | forceKillJob caller id =>
    refine Prog.emits_bind (calm_requireAdmin _) fun admin =>
      Prog.emits_bind (reads_selectJob _).calm fun j => ?_
    cases j with
    | none => trivial
    | some j => exact Prog.emits_bind (calm_cancelOrRequestCancel _ _ _ _ _ _) fun _ => trivial
  | listUsers caller status query cursor limit => exact (reads_listUsers _ _ _ _ _).calm
  | getUserDetail caller id => exact (reads_getUserDetail _ _).calm
  | getAuditEvent caller id => exact (reads_getAuditEvent _ _).calm
  | dashboard caller => exact (reads_dashboard _).calm
  | _ => cases h

/-! ## Along a run -/

/-- `require_admin` has turned the request down. -/
def deniedAdmin : Handler Response → Bool
  | .throw .adminRequired => true
  | _ => false

/-- In its first transaction and up to the account it looks up, the request is at its gate. -/
structure AtGate (th : Pending) : Prop where
  first : th.ses.past = []
  unread : accountsRead th.ses.tx = []

/-- The request keeps behind `require_admin`. -/
structure Guarded (th : Pending) : Prop where
  calm : Calm th.prog
  gate : AtGate th → th.prog.Finished = false →
    Gate (·.isAdmin) .adminRequired th.prog ∧ th.ses.tx.writes = []

theorem mem_accountsRead {tx : Transaction} {v : User} :
    v ∈ accountsRead tx ↔ ∃ w, tx.Read w (.user v) := by
  unfold accountsRead
  rw [List.mem_flatMap]
  constructor
  · rintro ⟨e, he, hv⟩
    split at hv
    · rename_i w hstmt
      obtain ⟨r, hr, hu⟩ := List.mem_filterMap.1 hv
      obtain ⟨hrow, hh⟩ := mem_matching.1 hr
      cases r with
      | user x => cases hu; exact ⟨w, e, he, hstmt, Db.get_of_mem hrow, hh⟩
      | _ => cases hu
    · simp at hv
  · rintro ⟨w, e, he, hstmt, hget, hh⟩
    refine ⟨e, he, ?_⟩
    rw [hstmt]
    exact List.mem_filterMap.2 ⟨.user v, mem_matching.2 ⟨Db.mem_of_get hget, hh⟩, rfl⟩

theorem accountsRead_eq_nil_of_log {tx tx' : Transaction} (h : ∀ e ∈ tx.log, e ∈ tx'.log)
    (hnil : accountsRead tx' = []) : accountsRead tx = [] := by
  rw [List.eq_nil_iff_forall_not_mem] at hnil ⊢
  intro v hv
  obtain ⟨w, hr⟩ := mem_accountsRead.1 hv
  exact hnil v (mem_accountsRead.2 ⟨w, hr.mono h⟩)

/-- **A request keeps behind its gate**, whatever step it takes. -/
theorem Guarded.moves {s : System} {i : Nat} {l : Label Request} {db : Database}
    {th th' : Pending} (h : Guarded th) (hm : Moves (controlPlane app) s i th l db th') :
    Guarded th' := by
  cases hm with
  | refused hp hr => exact ⟨trivial, fun _ hf => by cases hf⟩
  | closes hf => exact ⟨h.calm, fun _ hf' => by rw [hf] at hf'; cases hf'⟩
  | runs hp he =>
    rename_i pick q k r ses b
    obtain ⟨hcalm, hgate⟩ := h
    rw [hp] at hcalm hgate
    refine ⟨hcalm.2 r, fun hat hf => ?_⟩
    rcases exec_cases he with ⟨-, -, hgrows⟩ | ⟨hroll, -, -⟩ | ⟨-, -, rfl⟩
    · -- the transaction goes on, and had not looked up an account before either
      have hbefore : AtGate th := by
        cases hgrows with
        | same => exact ⟨hat.first, hat.unread⟩
        | takes _ _ =>
          exact ⟨hat.first, accountsRead_eq_nil_of_log
            (fun e he => List.mem_cons_of_mem _ he) hat.unread⟩
      obtain ⟨hgate, hw⟩ := hgate hbefore rfl
      cases hgate with
      | stops hfin => cases hfin
      | now hk => cases he; exact ⟨hk _, hw⟩
      | other hother hk => cases he; exact ⟨hk _, (List.append_nil _).trans hw⟩
      | account hnone hsome =>
        rename_i id k
        cases he
        refine ⟨?_, (List.append_nil _).trans hw⟩
        -- an account that was found would have been noted
        rw [Tx.view_of_no_writes hw]
        rcases pickRow_cases pick (matching s.db (.byKey (.user id))) with
          ⟨hpick, -⟩ | ⟨row, hrow, hpick⟩
        · rw [show (s.env i th pick).pick = pick from rfl, hpick]
          exact hnone
        · obtain ⟨hmem, hkey⟩ := mem_matching.1 hrow
          obtain ⟨v, rfl, -⟩ := Row.eq_user_of_key (of_decide_eq_true hkey)
          have hv : v ∈ accountsRead (th.ses.reads (.select (.byKey (.user id))) s.db).tx :=
            mem_accountsRead.2 ⟨_, _, List.mem_cons_self .., rfl, Db.get_of_mem hmem, hkey⟩
          rw [hat.unread] at hv
          simp at hv
    · exact absurd hroll hcalm.1
    · exact absurd hat.first (by simp [Session.committed])

/-- **Who gets past `require_admin` is an administrator**, and is one in the store at that
moment. -/
theorem admin_of_moves {s : System} {i : Nat} {l : Label Request} {db : Database}
    {th th' : Pending} (h : Guarded th) (hat : AtGate th)
    (hm : Moves (controlPlane app) s i th l db th') (hpasses : deniedAdmin th'.prog = false)
    {v : User} (hv : v ∈ accountsRead th'.ses.tx) :
    v.isAdmin = true ∧ s.db.user v.id = some v := by
  cases hm with
  | refused hp hr => simp [accountsRead] at hv
  | closes hf => simp [accountsRead] at hv
  | runs hp he =>
    rename_i pick q k r ses b
    have hgate := h.gate hat
    rw [hp] at hgate
    obtain ⟨hgate, hw⟩ := hgate rfl
    have hunread := hat.unread
    cases hgate with
    | stops hfin => cases hfin
    | now hk => cases he; rw [hunread] at hv; simp at hv
    | other hother hk =>
      rename_i w k
      cases he
      -- no account answers the query
      obtain ⟨w', e, he, hstmt, hget, hh⟩ := mem_accountsRead.1 hv
      rcases List.mem_cons.1 he with rfl | he
      · cases hstmt
        have hno := hother v
        rw [schema_holds, hno] at hh
        cases hh
      · have hmem := mem_accountsRead.2 ⟨w', e, he, hstmt, hget, hh⟩
        rw [hunread] at hmem
        simp at hmem
    | account hnone hsome =>
      rename_i id k
      cases he
      obtain ⟨w', e, he, hstmt, hget, hh⟩ := mem_accountsRead.1 hv
      rcases List.mem_cons.1 he with rfl | he
      · cases hstmt
        refine ⟨?_, Db.get_user_iff.1 hget⟩
        have hfound : s.db.get (.user id) = some (.user v) := by
          rw [← show Row.key (.user v) = .user id from of_decide_eq_true hh]
          exact hget
        by_contra hadmin
        rw [Tx.view_of_no_writes hw, pickRow_byKey, hfound,
          hsome v (Bool.not_eq_true _ ▸ hadmin)] at hpasses
        cases hpasses
      · have hmem := mem_accountsRead.2 ⟨w', e, he, hstmt, hget, hh⟩
        rw [hunread] at hmem
        simp at hmem

/-- In every state of a run the admin routes keep behind their gates. -/
theorem guarded_of_reach {T : Terms Row Request ApiError Response} {s₀ s : System}
    (h₀ : s₀.threads = []) (h : Reach (controlPlane app) T s₀ s) {i : Nat} {th : Pending}
    (hi : s.threads[i]? = some th) (hreq : isAdminRoute th.req = true) : Guarded th := by
  refine h.invariant (fun s => ∀ (i : Nat) (th : Pending), s.threads[i]? = some th →
    isAdminRoute th.req = true → Guarded th) (fun s l s' hI hs _ => ?_)
    (fun i th hi => by simp [h₀] at hi) i th hi hreq
  rcases step_cases hs with ⟨req, -, rfl⟩ | ⟨d, -, rfl⟩ | ⟨j, tj, tj', db, hj, -, hm, rfl⟩
  · intro k t hk hroute
    rcases getElem?_concat_cases hk with hk | ⟨-, rfl⟩
    · exact hI k t hk hroute
    · exact ⟨calm_of_isAdminRoute hroute, fun _ _ => ⟨gate_of_isAdminRoute hroute, rfl⟩⟩
  · exact hI
  · intro k t hk hroute
    rcases getElem?_set_cases hk with ⟨-, rfl⟩ | ⟨-, hold⟩
    · exact (hI j tj hj (hm.req_eq ▸ hroute)).moves hm
    · exact hI k t hold hroute

/-- In the step an admin route looks up the account of `v` and goes on. -/
def PassesAdmin (v : User) (s s' : System) : Prop :=
  ∃ (i : Nat) (th th' : Pending), s.threads[i]? = some th ∧ s'.threads[i]? = some th' ∧
    isAdminRoute th.req = true ∧ AtGate th ∧ v ∈ accountsRead th'.ses.tx ∧
    deniedAdmin th'.prog = false

theorem admin_of_passes {T : Terms Row Request ApiError Response} {s₀ s s' : System}
    {l : Label Request} (h₀ : s₀.threads = []) (h : Reach (controlPlane app) T s₀ s)
    (hs : step (controlPlane app) s l = some s') {v : User} (hv : PassesAdmin v s s') :
    v.isAdmin = true ∧ s.db.user v.id = some v := by
  obtain ⟨i, th, th', hi, hi', hreq, hat, hmem, hpasses⟩ := hv
  have hguard := guarded_of_reach h₀ h hi hreq
  have hstays : th' ≠ th := by
    rintro rfl
    rw [hat.unread] at hmem
    simp at hmem
  rcases step_cases hs with ⟨req, -, rfl⟩ | ⟨d, -, rfl⟩ | ⟨j, tj, tj', db, hj, -, hm, rfl⟩
  · rcases getElem?_concat_cases hi' with hold | ⟨hlen, -⟩
    · rw [hi] at hold
      exact absurd (Option.some.inj hold).symm hstays
    · rw [List.getElem?_eq_none hlen.ge] at hi
      cases hi
  · rw [hi] at hi'
    exact absurd (Option.some.inj hi').symm hstays
  · rcases getElem?_set_cases hi' with ⟨rfl, rfl⟩ | ⟨-, hold⟩
    · rw [hi] at hj
      cases hj
      exact admin_of_moves hguard hat hm hpasses hmem
    · rw [hi] at hold
      exact absurd (Option.some.inj hold).symm hstays

end GpuNetwork
