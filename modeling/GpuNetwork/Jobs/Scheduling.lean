import GpuNetwork.Commits.Alone
import GpuNetwork.Commits.Footprint
import GpuNetwork.ControlPlane.Listings
import GpuNetwork.Jobs.Assignment
import GpuNetwork.Store.InTurn

/-!
# First come, first served

A claim takes the oldest queued job that fits its node and that it can lock.

* `Tried` — the jobs a claim has passed over before the one it takes.
* `PassesOver` — each of them was locked by another request while the query was running.
* `StartsInOrder` — where requests are served in turn, jobs that are alike start in the
  order of their submission.
* `jobs_are_served_in_order`.
-/

namespace GpuNetwork

open ReadCommitted ReadCommitted.Spec

variable {app : App} {rely : Rely} {db : Database} {req : Request} {tx : Transaction}

/-- The query of a claim. -/
abbrev Node.candidates (n : Node) : Cond := .claimable n.id n.gpuCount

/-- The transaction has run the query of a claim of the node, has gone through what it
returned, and has locked the first job of it that it could. -/
structure Tried (tx : Transaction) (n : Node) (jobId : Uuid) (eq el : Entry Row Key Cond)
    (mid earlier : List (Entry Row Key Cond)) : Prop where
  query : eq.stmt = .selectAll n.candidates
  locks : el.stmt = .tryLock n.candidates (.job jobId)
  log : ∃ later, tx.log = later ++ el :: (mid ++ eq :: earlier)
  passed : ∃ front x back, matching eq.db n.candidates = front ++ x :: back ∧
    x.key = .job jobId ∧ ∀ y ∈ front, ∃ after e before, mid = after ++ e :: before ∧
      e.stmt = .tryLock n.candidates y.key ∧ e.locks = []

/-- What a claim commits has been found so. -/
def Schedules (app : App) (req : Request) (tx : Transaction) : Prop :=
  ∀ bearer, req = .claimJob bearer → ∃ n j now a eq el mid earlier, AsNode app tx bearer n ∧
    tx.writes = [.update (.job j) (.job (j.claimedBy n.id now)), .insert (.auditLog a)] ∧
    Tried tx n j.id eq el mid earlier

/-- The specification of the platform with what is said about claims. -/
def scheduling (app : App) (rely : Rely) : Spec Row Key Cond Request ApiError Response :=
  (platform app rely True).also (Schedules app) fun _ _ _ => True

/-! ## The handler -/

section Handler

variable {P : Spec Row Key Cond Request ApiError Response}

/-- The loop over the candidates notes each of them that it passes over. -/
theorem wp_lockFirst_noted {w : Cond} {Q : Option Job → Conn → Prop} {ses : Conn} {rs : List Row}
    (hw : ses.tx.writes = [])
    (hsome : ∀ ses' j el mid front x back, ses.Adds ses' [] → ses'.tx.Locked w (.job j) →
      rs = front ++ x :: back → x.key = .job j.id → ses'.tx.log = el :: (mid ++ ses.tx.log) →
      el.stmt = .tryLock w (.job j.id) →
      (∀ y ∈ front, ∃ after e before, mid = after ++ e :: before ∧
        e.stmt = .tryLock w y.key ∧ e.locks = []) → Q (some j) ses')
    (hnone : ∀ ses', ses.Adds ses' [] → Q none ses')
    (hjobs : ∀ r : Row, w.holds r = true → ∃ j, r = .job j) :
    P.Wp req (lockFirst w rs) ses Q := by
  induction rs generalizing ses with
  | nil => exact hnone ses Session.Adds.refl
  | cons r rs ih =>
    refine wp_tryLock_noted hw (fun s₁ x e h₁ hl hk hlog hstmt => ?_)
      (fun s₁ e h₁ hlog hstmt hlocks => ?_)
    · obtain ⟨j, rfl⟩ := hjobs x (by obtain ⟨-, -, -, hh, -⟩ := hl; exact hh)
      exact hsome s₁ j e [] [] r rs h₁ hl rfl hk.symm hlog (hstmt.trans (congrArg _ hk.symm))
        (by simp)
    · have hw₁ : s₁.tx.writes = [] := by rw [h₁.writes, hw]; rfl
      refine ih hw₁ (fun s₂ j el mid front x back h₂ hl hrs hx hlog₂ hel hfront => ?_)
        (fun s₂ h₂ => hnone s₂ (h₁.then_reads h₂))
      refine hsome s₂ j el (mid ++ [e]) (r :: front) x back (h₁.then_reads h₂) hl
        (by rw [hrs]; rfl) hx (by rw [hlog₂, hlog]; simp) hel fun y hy => ?_
      rcases List.mem_cons.1 hy with rfl | hy
      · exact ⟨mid, e, [], rfl, hstmt, hlocks⟩
      · obtain ⟨after, e', before, rfl, he'⟩ := hfront y hy
        exact ⟨after, e', before ++ [e], by simp, he'⟩

theorem stays_flush (old new : Row) : (flush old new).Emits Stmt.stays := by
  unfold flush
  split
  · trivial
  · refine Prog.emits_bind (Prog.emits_exec ⟨by simp, by simp⟩) fun matched => ?_
    cases matched <;> trivial

theorem stays_createAudit (event : Event) (userId : Option Uuid) (data : EventData)
    (client : Client) : (createAudit event userId data client).Emits Stmt.stays :=
  ⟨⟨by simp, by simp⟩, fun _ => ⟨⟨by simp, by simp⟩, fun _ => ⟨⟨by simp, by simp⟩,
    fun _ => trivial⟩⟩⟩

theorem schedules_claimJob (bearer : Option Str) :
    ((platform app rely True).only (Schedules app) fun _ _ _ => True).Safe (.claimJob bearer)
      (claimJob app bearer) {} := by
  refine wp_bind (wp_currentNode rfl (fun e => trivial) fun s₁ n h₁ hn => ?_)
  have hw₁ : s₁.tx.writes = [] := h₁.writes
  refine wp_bind ?_
  unfold claimForNode
  split
  · trivial
  refine wp_bind (wp_getRunningForNode hw₁ (fun s₂ j h₂ => trivial) (fun s₂ h₂ _ => ?_))
  have hw₂ : s₂.tx.writes = [] := by rw [h₂.writes, hw₁]; rfl
  refine wp_bind (wp_bind (wp_selectAll_noted hw₂ fun s₃ eq h₃ hlog₃ hquery => wp_ret.2 ?_))
  have hw₃ : s₃.tx.writes = [] := by rw [h₃.writes, hw₂]; rfl
  refine wp_bind (wp_lockFirst_noted hw₃
    (fun s₄ j el mid front x back h₄ hlock hrs hx hlog₄ hel hfront => ?_)
    (fun s₄ _ => wp_bind (wp_rollback (wp_ret.2 trivial))) fun r hr => ?_)
  · have hw₄ : s₄.tx.writes = [] := by rw [h₄.writes, hw₃]; rfl
    obtain ⟨-, -, -, hq, -⟩ := id hlock
    refine wp_bind (wp_now fun now => wp_ret.2 (wp_bind (wp_mono ?_ (wp_stays
      (stays_flush _ _) (wp_flush_of_ne (Q := fun _ s₅ => s₄.Adds s₅ _)
      (Job.claimedBy_ne (status_of_claimable hq) _ _) (target_ne_of_empty hw₄ _)
      (fun _ _ _ => trivial) fun s₅ h₅ _ _ => h₅)))))
    rintro - s₅ ⟨h₅, hlog₅⟩
    have hw₅ : s₅.tx.writes = _ := h₅.writes
    rw [hw₄, List.nil_append] at hw₅
    refine wp_bind (wp_mono ?_ (wp_stays (stays_createAudit _ _ _ _) (wp_createAudit
      (Q := fun _ s₆ => ∃ a, s₅.Adds s₆ [.insert (.auditLog a)]) ?_ fun s₆ a h₆ _ => ⟨a, h₆⟩)))
    swap
    · simp [hw₅, Write.target, Row.key]
    rintro - s₆ ⟨⟨a, h₆⟩, hlog₆⟩
    have hw₆ : s₆.tx.writes = _ := h₆.writes
    rw [hw₅] at hw₆
    have htried : Tried s₆.tx n j.id eq el mid s₂.tx.log := by
      refine ⟨hquery, hel, ?_, front, x, back, hrs, hx, hfront⟩
      obtain ⟨later, hlater⟩ := hlog₅.trans hlog₆
      exact ⟨later, by rw [← hlater, hlog₄, hlog₃]⟩
    have hn₆ : AsNode app s₆.tx bearer n := hn.mono fun e he =>
      h₆.log e (h₅.log e (h₄.log e (h₃.log e (h₂.log e he))))
    refine wp_bind (wp_commitTx ?_ (wp_bind (wp_refreshJob rfl trivial fun s₇ j' h₇ _ => trivial)))
    intro bearer' he
    cases he
    exact ⟨n, j, now, a, eq, el, mid, _, hn₆, hw₆, htried⟩
  · cases r with
    | job j => exact ⟨j, rfl⟩
    | _ => cases hr

end Handler

/-- **The handlers claim jobs as `Schedules` says.** -/
theorem scheduling_valid (app : App) (rely : Rely) :
    (scheduling app rely).Valid (controlPlane app) := by
  refine Valid.also (platform_valid app _ _) ⟨fun req => ?_, fun _ _ _ _ => trivial⟩
  cases req with
  | claimJob bearer => exact schedules_claimJob bearer
  | _ => exact wp_of_trivial (fun _ _ he => by cases he) (fun _ _ => trivial) fun _ _ => trivial

/-! ## The queue -/

/-- `(created_at, id)` of the one is smaller. -/
def Job.Earlier (a b : Job) : Prop :=
  a.createdAt < b.createdAt ∨ (a.createdAt = b.createdAt ∧ a.id < b.id)

/-- The node may not take the job: it asks for more GPUs, or for another node. -/
def Job.Ineligible (a : Job) (n : Node) : Prop :=
  n.gpuCount < a.gpuCount ∨ ∃ m, a.preferredNodeId = some m ∧ m ≠ n.id

theorem earlier_iff {a b : Job} : a.Earlier b ↔ (Row.job a).place < (Row.job b).place := by
  rw [Row.place, Row.place, Prod.Lex.toLex_lt_toLex]
  rfl

theorem claimable_of_queued {a : Job} {n : Node} (hq : a.status = .queued)
    (h : ¬ a.Ineligible n) : a.claimable n.id n.gpuCount = true := by
  simp only [Job.Ineligible, not_or, not_lt, not_exists, not_and, not_not] at h
  simp only [Job.claimable, hq, h.1, Bool.and_eq_true, Bool.or_eq_true, decide_eq_true_eq,
    true_and]
  cases hp : a.preferredNodeId with
  | none => exact Or.inl rfl
  | some m => exact Or.inr (by rw [h.2 m hp])

/-- The candidates come in the order of their submission. -/
theorem pairwise_candidates (db : Database) (n : Node) :
    (matching db n.candidates).Pairwise fun x y => x.place < y.place := by
  have hjob : ∀ {r : Row}, n.candidates.holds r = true → ∃ j, r = .job j := by
    intro r hr
    cases r with
    | job j => exact ⟨j, rfl⟩
    | _ => cases hr
  refine pairwise_matching (fun r : Row => OrderDual.toDual r.place) db (fun x y hx hy => ?_)
    fun x y hx hy he => ?_
  · obtain ⟨a, rfl⟩ := hjob hx
    obtain ⟨b, rfl⟩ := hjob hy
    show Cond.before _ _ _ = true ↔ (Row.job a).place ≤ (Row.job b).place
    rw [place_le_iff]
    simp [Cond.before, Row.stamp]
  · obtain ⟨hrow, hholds⟩ := mem_matching.1 hx
    obtain ⟨hrow', hholds'⟩ := mem_matching.1 hy
    obtain ⟨a, rfl⟩ := hjob hholds
    obtain ⟨b, rfl⟩ := hjob hholds'
    have hstamp : (Row.job a).stamp = (Row.job b).stamp :=
      toLex.injective (OrderDual.toDual_inj.1 he)
    have hid : a.id = b.id := congrArg (fun p : Time × Uuid => p.2) hstamp
    exact List.inj_on_of_nodup_map db.nodup hrow hrow' (congrArg Key.job hid)

/-- Of the candidates, those that are earlier than one come before it. -/
theorem mem_front {db : Database} {n : Node} {front back : List Row} {x y : Row}
    (h : matching db n.candidates = front ++ x :: back) (hy : y ∈ matching db n.candidates)
    (hlt : y.place < x.place) : y ∈ front := by
  have hsorted := pairwise_candidates db n
  rw [h] at hy hsorted
  rcases List.mem_append.1 hy with hy | hy
  · exact hy
  · exfalso
    rcases List.mem_cons.1 hy with rfl | hy
    · exact lt_irrefl _ hlt
    · exact lt_asymm hlt ((List.pairwise_cons.1 (List.pairwise_append.1 hsorted).2.1).1 y hy)

/-! ## Submission times -/

/-- The jobs are still there, with their time of submission. -/
def KeepsDates (a b : Database) : Prop :=
  ∀ id j, a.job id = some j → ∃ j', b.job id = some j' ∧ j'.createdAt = j.createdAt

/-- **No commit changes the time of submission of a job.** -/
theorem keepsDates_of_committing {refusals : Prop}
    (h : (platform app rely refusals).Committing db req tx) : KeepsDates db (tx.view db) := by
  intro id j hj
  have hstep := job_step h id
  rw [hj] at hstep
  generalize (tx.view db).job id = o at hstep ⊢
  cases hstep <;> exact ⟨_, rfl, rfl⟩

theorem KeepsDates.refl (a : Database) : KeepsDates a a := fun _ j hj => ⟨j, hj, rfl⟩

theorem KeepsDates.trans {a b c : Database} (h : KeepsDates a b) (h' : KeepsDates b c) :
    KeepsDates a c := by
  intro id j hj
  obtain ⟨j₁, hj₁, he₁⟩ := h id j hj
  obtain ⟨j₂, hj₂, he₂⟩ := h' id j₁ hj₁
  exact ⟨j₂, hj₂, he₂.trans he₁⟩

/-- Every state is in order for claims. -/
theorem scheduling_ok {T : Terms Row Request ApiError Response} {s₀ s : System}
    (h₀ : s₀.threads = []) (h : Reach (controlPlane app) T s₀ s) :
    (scheduling app fun _ _ _ _ => True).Ok s :=
  ok_reach (scheduling_valid app _) (fun _ _ _ hs _ _ =>
    kept_of_commits (P := scheduling app fun _ _ _ _ => True) trivial
      (fun _ _ _ _ _ _ => trivial) hs) (ok_of_no_threads h₀) h

theorem keepsDates_of_reach {T T' : Terms Row Request ApiError Response} {s₀ s s' : System}
    (h₀ : s₀.threads = []) (h : Reach (controlPlane app) T s₀ s)
    (h' : Reach (controlPlane app) T' s s') : KeepsDates s.db s'.db := by
  have hok : (scheduling app fun _ _ _ _ => True).Ok s := scheduling_ok h₀ h
  refine (h'.invariant (fun s' => (scheduling app fun _ _ _ _ => True).Ok s' ∧
    KeepsDates s.db s'.db) (fun s₁ l s₂ hs hst _ => ?_) ⟨hok, KeepsDates.refl _⟩).2
  obtain ⟨hok₁, hdates⟩ := hs
  refine ⟨ok_step (scheduling_valid app _) hok₁ hst (kept_of_commits
    (P := scheduling app fun _ _ _ _ => True) trivial (fun _ _ _ _ _ _ => trivial) hst), ?_⟩
  rcases hok₁.db_cases hst with hdb | ⟨i, th, th', -, hcom, hview, -⟩
  · rw [hdb]; exact hdates
  · rw [hview]; exact hdates.trans (keepsDates_of_committing hcom.of_also)

/-! ## Jobs that are passed over -/

/-- Thread `i` has run the query of a claim of the node: it looked for the candidates at
step `q`, and at step `p` it locked the job, the first of them that it could. -/
structure Queries (app : App) (s₀ : System) (ls : List (Label Request)) (i : Nat) (n : Node)
    (jobId : Uuid) (q p : Nat) (sq : System) : Prop where
  lt : q < p
  asks : ∃ tq, RunsAt (controlPlane app) s₀ ls i q sq tq (.selectAll n.candidates)
  locks : ∃ sp tp, RunsAt (controlPlane app) s₀ ls i p sp tp (.tryLock n.candidates (.job jobId))

/-- Another request than `i` held a lock on the job while the query was running. -/
def LockedMeanwhile (app : App) (s₀ : System) (ls : List (Label Request)) (i q p : Nat)
    (jobId : Uuid) : Prop :=
  ∃ m sm, q < m ∧ m ≤ p ∧ AtStep (controlPlane app) s₀ ls m sm ∧ HeldByOther sm i (.job jobId)

variable {s₀ s : System} {ls : List (Label Request)} {l : Label Request} {i m : Nat} {th : Pending}

/-- The query of a claim that commits, as the run has seen it. -/
theorem queries_of_tried {n : Node} {jobId : Uuid} {eq el : Entry Row Key Cond}
    {mid earlier : List (Entry Row Key Cond)} (h₀ : s₀.threads = [])
    (hs : AtStep (controlPlane app) s₀ ls ls.length s) (hi : s.threads[i]? = some th)
    (ht : Tried th.ses.tx n jobId eq el mid earlier) :
    ∃ q p sq tq sp tp,
      NotedAt (controlPlane app) s₀ ls i ls.length th.ses.tx eq earlier q sq tq ∧
      NotedAt (controlPlane app) s₀ ls i ls.length th.ses.tx el (mid ++ eq :: earlier) p sp tp ∧
      Queries app s₀ ls i n jobId q p sq := by
  obtain ⟨later, hlog⟩ := ht.log
  obtain ⟨p, sp, tp, hp⟩ := noted h₀ hs hi hlog
  have hlog' : th.ses.tx.log = (later ++ el :: mid) ++ eq :: earlier := by simp [hlog]
  obtain ⟨q, sq, tq, hq⟩ := noted h₀ hs hi hlog'
  refine ⟨q, p, sq, tq, sp, tp, hq, hp, hq.order hp, ⟨tq, ?_⟩, sp, tp, ?_⟩
  · have hruns := hq.runs
    rwa [ht.query] at hruns
  · have hruns := hp.runs
    rwa [ht.locks] at hruns

/-- **A candidate that is passed over was locked by another request.** -/
theorem locked_of_passed {n : Node} {jobId : Uuid} {eq el : Entry Row Key Cond}
    {mid earlier : List (Entry Row Key Cond)} {q p : Nat} {sq sp : System} {tq tp : Pending}
    (h₀ : s₀.threads = []) (hs : AtStep (controlPlane app) s₀ ls ls.length s)
    (hi : s.threads[i]? = some th) (ht : Tried th.ses.tx n jobId eq el mid earlier)
    (hq : NotedAt (controlPlane app) s₀ ls i ls.length th.ses.tx eq earlier q sq tq)
    (hp : NotedAt (controlPlane app) s₀ ls i ls.length th.ses.tx el (mid ++ eq :: earlier) p sp tp)
    (hwrites : ∀ aid, aid ≠ jobId → ∀ w ∈ th.ses.tx.writes, w.target ≠ Key.job aid) {a b : Job}
    (ha : sq.db.job a.id = some a) (hb : sq.db.job jobId = some b)
    (hclaim : a.claimable n.id n.gpuCount = true) (hlt : a.Earlier b) :
    LockedMeanwhile app s₀ ls i q p a.id := by
  rw [hq.db] at ha hb
  obtain ⟨front, x, back, hrows, hx, hpassed⟩ := ht.passed
  have hmem : Row.job a ∈ matching eq.db n.candidates :=
    mem_matching.2 ⟨Db.mem_of_get (Db.get_job_iff.2 ha), hclaim⟩
  have hxb : x = .job b := by
    have hxmem : x ∈ matching eq.db n.candidates := by rw [hrows]; simp
    have hget := Db.get_of_mem (mem_matching.1 hxmem).1
    rw [show Schema.key x = Key.job jobId from hx, Db.get_job_iff.2 hb, Option.some.injEq] at hget
    exact hget.symm
  have hplace : (Row.job a).place < x.place := by rw [hxb]; exact earlier_iff.1 hlt
  have hne : a.id ≠ jobId := by
    intro he
    rw [he, hb, Option.some.injEq] at ha
    rw [hxb, ha] at hplace
    exact lt_irrefl _ hplace
  obtain ⟨after, e, before, hmid, hstmt, hlocks⟩ := hpassed _ (mem_front hrows hmem hplace)
  obtain ⟨later, hlog⟩ := ht.log
  have hlog' : th.ses.tx.log = (later ++ el :: after) ++ e :: (before ++ eq :: earlier) := by
    simp [hlog, hmid]
  obtain ⟨pe, se, te, he⟩ := noted h₀ hs hi hlog'
  have hp' : NotedAt (controlPlane app) s₀ ls i ls.length th.ses.tx el
      (after ++ e :: (before ++ eq :: earlier)) p sp tp := by simpa [hmid] using hp
  obtain ⟨m, sm, hqm, hmp, hsm, hheld⟩ := held_of_passed_over h₀ hq he hstmt hlocks
    (hwrites a.id hne) (Db.get_job_iff.2 ha) hclaim
  exact ⟨m, sm, hqm, hmp.trans (he.order hp').le, hsm, hheld⟩

/-- The claim that thread `i` commits in the state `s` has taken the first job of the queue
that it could: each earlier one that was queued when it ran its query was not for its node,
or locked by another request. -/
def TakesFirst (app : App) (s₀ : System) (ls : List (Label Request)) (s : System) (i : Nat)
    (th : Pending) (jobId : Uuid) : Prop :=
  ∃ bearer n j now rest q p sq, th.req = .claimJob bearer ∧ AsNode app th.ses.tx bearer n ∧
    th.ses.tx.writes = .update (.job j) (.job (j.claimedBy n.id now)) :: rest ∧ j.id = jobId ∧
    Queries app s₀ ls i n jobId q p sq ∧
    ∀ a b, sq.db.job a.id = some a → a.status = .queued → s.db.job jobId = some b →
      a.Earlier b → a.Ineligible n ∨ LockedMeanwhile app s₀ ls i q p a.id

/-- A claim writes no other job. -/
theorem target_of_claim {tx : Transaction} {j : Job} {nodeId : Uuid} {now : Time} {a : AuditLog}
    (hw : tx.writes = [.update (.job j) (.job (j.claimedBy nodeId now)), .insert (.auditLog a)])
    {aid : Uuid} (hne : aid ≠ j.id) : ∀ w ∈ tx.writes, w.target ≠ Key.job aid := by
  rw [hw]
  simp [Write.target, Row.key, Ne.symm hne]

/-- The job a claim has locked was among its candidates. -/
theorem candidate_of_tried {n : Node} {jobId : Uuid} {eq el : Entry Row Key Cond}
    {mid earlier : List (Entry Row Key Cond)} (ht : Tried tx n jobId eq el mid earlier) :
    ∃ b, eq.db.job jobId = some b ∧ b.claimable n.id n.gpuCount = true := by
  obtain ⟨front, x, back, hrows, hx, -⟩ := ht.passed
  have hmem : x ∈ matching eq.db n.candidates := by rw [hrows]; simp
  obtain ⟨hrow, hholds⟩ := mem_matching.1 hmem
  obtain ⟨b, rfl, rfl⟩ := Row.eq_job_of_key hx
  exact ⟨b, Db.get_job_iff.1 (Db.get_of_mem hrow), hholds⟩

/-- **A claim takes the first job of the queue that it can**, whatever requests interleave. -/
theorem takes_first (h₀ : s₀.threads = []) (hrun : runFrom (controlPlane app) s₀ ls = some s)
    (hc : Commits s l i th) {jobId : Uuid} (hclaim : ClaimsJob th.req th.ses.tx jobId) :
    TakesFirst app s₀ ls s i th jobId := by
  have hs := atStep_length hrun
  have hcom := (scheduling_ok h₀ hs.reach).committing hc
  obtain ⟨bearer, j₀, nodeId, now₀, rest, hreq, hw₀, rfl⟩ := hclaim
  obtain ⟨n, j, now, a, eq, el, mid, earlier, hn, hw, ht⟩ := hcom.shape.2 bearer hreq
  have hsame := hw₀.symm.trans hw
  simp only [List.cons.injEq, Write.update.injEq, Row.job.injEq] at hsame
  obtain ⟨⟨rfl, -⟩, -⟩ := hsame
  obtain ⟨q, p, sq, tq, sp, tp, hq, hp, hquery⟩ := queries_of_tried h₀ hs hc.1 ht
  refine ⟨bearer, n, j₀, now, _, q, p, sq, hreq, hn, hw, rfl, hquery,
    fun a b ha hqueued hb hlt => ?_⟩
  by_cases hinel : a.Ineligible n
  · exact Or.inl hinel
  · refine Or.inr ?_
    obtain ⟨b₀, hb₀, -⟩ := candidate_of_tried ht
    rw [← hq.db] at hb₀
    obtain ⟨b', hb', hdate⟩ := keepsDates_of_reach h₀ hq.runs.state.reach
      (hq.runs.state.between hs hq.lt.le) _ _ hb₀
    rw [hb, Option.some.injEq] at hb'
    subst hb'
    have hids : b.id = b₀.id := (Db.id_of_job hb).trans (Db.id_of_job hb₀).symm
    have hlt₀ : a.Earlier b₀ := by
      unfold Job.Earlier at hlt ⊢
      rwa [hdate, hids] at hlt
    exact locked_of_passed h₀ hs hc.1 ht hq hp (fun aid hne => target_of_claim hw hne) ha hb₀
      (claimable_of_queued hqueued hinel) hlt₀

/-! ## Requests in turn -/

/-- The run serves one request after the other. -/
abbrev ServesInTurn (app : App) (s₀ : System) (ls : List (Label Request)) : Prop :=
  Along (controlPlane app) InTurn s₀ ls

theorem oneAtATime_of_inTurn {s s' : System} (h : InTurn s l s') : OneAtATime s l s' :=
  fun req hl th hth => (h req hl th hth).1

/-- What is known of a claim that commits in such a run: nobody has changed anything. -/
theorem committing_inTurn (h₀ : s₀.threads = []) (hs : AtStep (controlPlane app) s₀ ls m s)
    (hturn : ServesInTurn app s₀ ls) (hc : Commits s l i th) :
    (scheduling app fun _ _ a b => a = b).Committing s.db th.req th.ses.tx := by
  have hreach := (hs.along hturn).atMostOne (fun _ _ _ => oneAtATime_of_inTurn) h₀
  have hok : (scheduling app fun _ _ a b => a = b).Ok s :=
    ok_reach (scheduling_valid app _) (fun _ _ _ _ ht _ => kept_of_atMostOne trivial ht.2)
      (ok_of_no_threads h₀) hreach
  exact hok.committing hc

theorem oneOpen_inTurn (h₀ : s₀.threads = []) (hs : AtStep (controlPlane app) s₀ ls m s)
    (hturn : ServesInTurn app s₀ ls) : OneOpen s :=
  (hs.along hturn).invariant OneOpen (fun _ _ _ => oneOpen_step)
    fun i j ti tj _ hi => by simp [h₀] at hi

/-- Nobody else locks anything while a claim runs its query. -/
theorem not_lockedMeanwhile (h₀ : s₀.threads = []) (hturn : ServesInTurn app s₀ ls)
    {e : Entry Row Key Cond} {earlier : List (Entry Row Key Cond)} {q p : Nat} {sq : System}
    {tq : Pending} (hq : NotedAt (controlPlane app) s₀ ls i ls.length tx e earlier q sq tq)
    (hp : p ≤ ls.length) (jobId : Uuid) : ¬ LockedMeanwhile app s₀ ls i q p jobId := by
  rintro ⟨m, sm, hqm, hmp, hsm, hheld⟩
  obtain ⟨th, hi, hsuffix⟩ := hq.stays m sm hqm (hmp.trans hp) hsm
  refine (oneOpen_inTurn h₀ hsm hturn).not_held hi (fun hclosed => ?_) _ hheld
  rw [hclosed.2.1] at hsuffix
  simp at hsuffix

/-- Two jobs that ask for the same. -/
def Job.Alike (a b : Job) : Prop :=
  a.gpuCount = b.gpuCount ∧ a.preferredNodeId = b.preferredNodeId

theorem claimable_of_alike {a b : Job} {n : Node} (h : a.Alike b) (hq : a.status = .queued)
    (hb : b.claimable n.id n.gpuCount = true) : a.claimable n.id n.gpuCount = true := by
  simp only [Job.claimable, Bool.and_eq_true, Bool.or_eq_true, decide_eq_true_eq] at hb ⊢
  exact ⟨⟨hq, h.1 ▸ hb.1.2⟩, h.2 ▸ hb.2⟩

/-- **A job is not started while one like it waits that was submitted before.** -/
theorem none_left_waiting (h₀ : s₀.threads = []) (hrun : runFrom (controlPlane app) s₀ ls = some s)
    (hturn : ServesInTurn app s₀ ls) (hc : Commits s l i th) {jobId : Uuid}
    (hclaim : ClaimsJob th.req th.ses.tx jobId) {a b : Job} (ha : s.db.job a.id = some a)
    (hqueued : a.status = .queued) (hb : s.db.job jobId = some b) (halike : a.Alike b) :
    ¬ a.Earlier b := by
  intro hlt
  have hs := atStep_length hrun
  have hcom := committing_inTurn h₀ hs hturn hc
  obtain ⟨bearer, j₀, nodeId, now₀, rest, hreq, hw₀, rfl⟩ := hclaim
  obtain ⟨n, j, now, x, eq, el, mid, earlier, hn, hw, ht⟩ := hcom.shape.2 bearer hreq
  have hsame := hw₀.symm.trans hw
  simp only [List.cons.injEq, Write.update.injEq, Row.job.injEq] at hsame
  obtain ⟨⟨rfl, -⟩, -⟩ := hsame
  obtain ⟨q, p, sq, tq, sp, tp, hq, hp, -⟩ := queries_of_tried h₀ hs hc.1 ht
  -- nobody has committed since the query
  have hdb : eq.db = s.db := by
    obtain ⟨later, hlog⟩ := ht.log
    exact hcom.db_eq_of_alone (fun _ _ _ he => he) (by rw [hlog]; simp)
  obtain ⟨b₀, hb₀, hclaimable⟩ := candidate_of_tried ht
  rw [hdb, hb, Option.some.injEq] at hb₀
  subst hb₀
  have hsq : sq.db = s.db := hq.db.trans hdb
  refine not_lockedMeanwhile h₀ hturn hq hp.lt.le a.id ?_
  exact locked_of_passed h₀ hs hc.1 ht hq hp (fun aid hne => target_of_claim hw hne)
    (by rw [hsq]; exact ha) (by rw [hsq]; exact hb) (claimable_of_alike halike hqueued hclaimable)
    hlt

/-! ## Submission times in turn -/

/-- When a job was submitted. -/
def submittedAt : Row → Option Time
  | .job j => some j.createdAt
  | _ => none

/-- The requests that submit jobs. -/
def Submits (req : Request) : Prop := ∃ caller p, req = .submitJob caller p

/-- A job that is inserted is dated by the start of its transaction. -/
abbrev JobDated (t : Time) (r : Row) : Prop := ∀ t', submittedAt r = some t' → t' = t

theorem dated_of_reads {α : Type} {x : Handler α} (h : Reads x) (b : Option Time) :
    x.Dated JobDated b := by
  refine dated_of_emits (Prog.Emits.mono (fun q hq t r hr => ?_) h) b
  cases q <;> first | exact hr.elim | cases hq

theorem dated_createJob (userId : Uuid) (p : SubmitJobRequest) (b : Option Time) :
    (createJob userId p).Dated JobDated b := by
  intro now₁
  refine ⟨fun r hr => hr.elim, fun id _ now₂ => ⟨fun r hr => hr.elim, ?_⟩⟩
  rintro t (rfl : t = b.getD now₂) now₃
  refine ⟨?_, fun _ _ => trivial⟩
  rintro r rfl t' ht'
  cases ht'
  rfl

theorem dated_createAudit (event : Event) (userId : Option Uuid) (data : EventData)
    (client : Client) (b : Option Time) :
    (createAudit event userId data client).Dated JobDated b := by
  refine dated_of_emits (D := JobDated) (x := createAudit event userId data client)
    ⟨fun t r hr => hr.elim, fun id => ⟨fun t r hr => hr.elim, fun now =>
      ⟨fun t r hr => ?_, fun _ => trivial⟩⟩⟩ b
  intro t' ht'
  rw [show r = _ from hr] at ht'
  cases ht'

theorem dated_submitJob (caller : Caller) (p : SubmitJobRequest) :
    (submitJob app caller p).Dated JobDated none := by
  refine dated_bind (dated_of_reads (reads_currentUser caller.bearer) none) fun u b => ?_
  split
  · trivial
  split
  · trivial
  refine dated_bind (dated_createJob u.id p b) fun j b => ?_
  refine dated_bind (dated_createAudit _ _ _ _ b) fun _ b => ?_
  refine dated_bind (dated_of_emits (D := JobDated) (x := commit)
    ⟨fun t r hr => hr.elim, fun _ => trivial⟩ b) fun _ b => ?_
  exact dated_bind (dated_of_reads (reads_refreshJob j.id) b) fun _ _ => trivial

/-- **Jobs are stamped when they are submitted.** -/
theorem stamps_jobs (app : App) :
    Stamps (scheduling app fun _ _ _ _ => True) (controlPlane app) submittedAt Submits where
  merge := by
    intro old new cur
    cases cur with
    | job c => cases old <;> cases new <;> rfl
    | _ => cases old <;> cases new <;> rfl
  dated := by
    rintro req ⟨caller, p, rfl⟩
    exact dated_submitJob caller p
  others := by
    intro db req tx hcom hreq r hr
    have hmay := may_of_shape hcom.shape.1 _ hr
    cases r with
    | job j =>
      cases req with
      | submitJob caller p => exact absurd ⟨caller, p, rfl⟩ hreq
      | pushMetrics bearer id samples =>
        obtain ⟨g, hg⟩ := hmay
        cases hg
      | _ => exact hmay.elim
    | _ => rfl

/-- No job of the store was submitted after the time. -/
def SubmittedBy (clock : Time) (db : Database) : Prop :=
  ∀ id j, db.job id = some j → j.createdAt ≤ clock

theorem inOrder_of_run (h₀ : s₀.threads = []) (hdb : SubmittedBy s₀.clock s₀.db)
    (hs : AtStep (controlPlane app) s₀ ls m s) (hturn : ServesInTurn app s₀ ls) :
    ReadCommitted.InOrder submittedAt Submits s := by
  refine ((hs.along hturn).invariant (fun s => (scheduling app fun _ _ _ _ => True).Ok s ∧
    ReadCommitted.InOrder submittedAt Submits s) (fun s l s' hI hst ht => ?_)
    ⟨ok_of_no_threads h₀, ?_⟩).2
  · exact ⟨ok_step (scheduling_valid app _) hI.1 hst (kept_of_commits
      (P := scheduling app fun _ _ _ _ => True) trivial (fun _ _ _ _ _ _ => trivial) hst),
      inOrder_step (stamps_jobs app) hI.2 hI.1 hst ht⟩
  · refine ⟨fun i j ti tj _ hi => by simp [h₀] at hi, fun i th hi => by simp [h₀] at hi,
      fun r hr t ht => ?_, fun i th b hi => by simp [h₀] at hi⟩
    cases r with
    | job j =>
      cases ht
      exact hdb j.id j (Db.get_job_iff.1 (Db.get_of_mem hr))
    | _ => cases ht

/-- **Jobs are dated in the order of their submission**: one that comes later has no
earlier date. -/
theorem dated_in_order (h₀ : s₀.threads = []) (hdb : SubmittedBy s₀.clock s₀.db)
    (hturn : ServesInTurn app s₀ ls) {n : Nat} {sm sn : System} {A B : Uuid} {a b : Job}
    (hm : AtStep (controlPlane app) s₀ ls m sm) (hn : AtStep (controlPlane app) s₀ ls n sn)
    (hmn : m ≤ n) (hA : sm.db.job A = none) (hB : sm.db.job B = some b)
    (ha : sn.db.job A = some a) : b.createdAt ≤ a.createdAt := by
  induction n generalizing sn a with
  | zero =>
    obtain rfl := Nat.le_zero.1 hmn
    rw [hm.unique hn, ha] at hA
    cases hA
  | succ n ih =>
    rcases Nat.lt_or_eq_of_le hmn with hlt | rfl
    swap
    · rw [hm.unique hn, ha] at hA
      cases hA
    have hle := Nat.lt_succ_iff.1 hlt
    obtain ⟨s₁, l, hs₁, -, hst⟩ := atStep_succ.1 hn
    cases hA₁ : s₁.db.job A with
    | some a₁ =>
      obtain ⟨a', ha', hdate⟩ := keepsDates_of_reach h₀ hs₁.reach
        (hs₁.between hn (Nat.le_succ n)) _ _ hA₁
      rw [ha, Option.some.injEq] at ha'
      rw [ha', hdate]
      exact ih hs₁ hle hA₁
    | none =>
      -- the job comes in the last step
      obtain ⟨b₁, hb₁, hdate⟩ := keepsDates_of_reach h₀ hm.reach (hm.between hs₁ hle) _ _ hB
      have hnew : s₁.db.get (.job A) = none := by
        rw [Db.get_job, hA₁]
        rfl
      obtain rfl := Db.id_of_job ha
      rw [← hdate]
      exact stamped_in_order (stamps_jobs app) (inOrder_of_run h₀ hdb hs₁ hturn)
        (scheduling_ok h₀ hs₁.reach) hst (Db.mem_of_get (Db.get_job_iff.2 ha)) hnew
        (Db.mem_of_get (Db.get_job_iff.2 hb₁)) rfl rfl

/-! ## The order in which jobs start -/

/-- A job that is handed out is handed out by the claim that commits. -/
theorem claims_of_handsOut {s s' : System} (hok : (scheduling app fun _ _ _ _ => True).Ok s)
    (hst : step (controlPlane app) s l = some s') {id : Uuid} (h : HandsOut id s.db s'.db) :
    ∃ i th, Commits s l i th ∧ ClaimsJob th.req th.ses.tx id := by
  obtain ⟨j, j', hj, hj', hq, hrun⟩ := h
  rcases hok.db_cases hst with hdb | ⟨i, th, th', hc, hcom, hview, -, -, -⟩
  · rw [hdb, hj, Option.some.injEq] at hj'
    rw [hj', hrun] at hq
    cases hq
  · refine ⟨i, th, hc, ?_⟩
    have hstep := job_step hcom.of_also id
    rw [hj, ← hview, hj'] at hstep
    cases hstep with
    | same => rw [hq] at hrun; cases hrun
    | claimed hreq hn hdrain hmiss hclaim hfound hw =>
      obtain ⟨n, j₁, now, a, -, -, -, -, -, hws⟩ := shape_of_claimJob (hreq ▸ hcom.shape.1)
      rw [hws] at hw
      simp only [List.mem_cons, Write.update.injEq, Row.job.injEq, List.not_mem_nil, or_false,
        reduceCtorEq] at hw
      rw [hw.1] at hj
      exact ⟨_, j₁, n.id, now, _, hreq, hws, Db.id_of_job hj⟩
    | completed hreq hn hread hassign hallowed hw =>
      rw [status_merge_terminated (ne_of_allowed hallowed)] at hrun
      rcases completionTarget_cases _ _ with he | he | he <;> rw [he] at hrun <;> cases hrun
    | cancelled hreq hread hstatus hw =>
      rw [status_merge_terminated (by rw [hstatus]; simp)] at hrun
      cases hrun
    | cancelRequested hreq hread hstatus hnone hw =>
      have hsame : j.status = .running := by simpa [Job.merge, Job.cancelRequested] using hrun
      rw [hq] at hsame
      cases hsame
    | nodeDeleted hreq hmiss hw =>
      have hsame : j.status = .running := hrun
      rw [hq] at hsame
      cases hsame

/-- The job leaves the queue for a node in step `p` of the run. -/
structure StartsAt (app : App) (s₀ : System) (ls : List (Label Request)) (p : Nat) (id : Uuid)
    (s : System) (j : Job) : Prop where
  state : AtStep (controlPlane app) s₀ ls p s
  next : ∃ s', AtStep (controlPlane app) s₀ ls (p + 1) s' ∧ HandsOut id s.db s'.db
  job : s.db.job id = some j

theorem StartsAt.claim {p : Nat} {id : Uuid} {j : Job} (h₀ : s₀.threads = [])
    (h : StartsAt app s₀ ls p id s j) :
    ∃ l i th, runFrom (controlPlane app) s₀ (ls.take p) = some s ∧
      ls[p]? = some l ∧ Commits s l i th ∧ ClaimsJob th.req th.ses.tx id := by
  obtain ⟨s', hs', hout⟩ := h.next
  obtain ⟨s₁, l, hs₁, hl, hst⟩ := atStep_succ.1 hs'
  rw [hs₁.unique h.state] at hst
  obtain ⟨i, th, hc, hclaim⟩ := claims_of_handsOut (scheduling_ok h₀ h.state.reach) hst hout
  exact ⟨l, i, th, h.state.2, hl, hc, hclaim⟩

/-- The first job is submitted before the second: it is in the store when the second is not,
or both are and it has the earlier date. -/
def SubmittedBefore (app : App) (s₀ : System) (ls : List (Label Request)) (A B : Uuid) : Prop :=
  ∃ m s a, AtStep (controlPlane app) s₀ ls m s ∧ s.db.job A = some a ∧
    ∀ b, s.db.job B = some b → a.createdAt < b.createdAt

/-- A job that starts in the run has the date it had before. -/
theorem StartsAt.date {p : Nat} {id : Uuid} {j j₁ : Job} {s₁ : System} (h₀ : s₀.threads = [])
    (h : StartsAt app s₀ ls p id s j) (hm : AtStep (controlPlane app) s₀ ls m s₁)
    (hj₁ : s₁.db.job id = some j₁) : j₁.createdAt = j.createdAt := by
  rcases le_total m p with hle | hle
  · obtain ⟨j', hj', hdate⟩ := keepsDates_of_reach h₀ hm.reach (hm.between h.state hle) _ _ hj₁
    rw [h.job, Option.some.injEq] at hj'
    rw [hj', hdate]
  · obtain ⟨j', hj', hdate⟩ :=
      keepsDates_of_reach h₀ h.state.reach (h.state.between hm hle) _ _ h.job
    rw [hj₁, Option.some.injEq] at hj'
    rw [hj', hdate]

/-- A job that is submitted before another has the earlier date, where their dates differ. -/
theorem date_lt_of_submittedBefore (h₀ : s₀.threads = []) (hdb : SubmittedBy s₀.clock s₀.db)
    (hturn : ServesInTurn app s₀ ls) {A B : Uuid} {a b : Job} {p q : Nat} {sp sq : System}
    (h : SubmittedBefore app s₀ ls A B) (hp : StartsAt app s₀ ls p A sp a)
    (hq : StartsAt app s₀ ls q B sq b) (hne : a.createdAt ≠ b.createdAt) :
    a.createdAt < b.createdAt := by
  obtain ⟨m, s₁, a₁, hm, ha₁, hlt⟩ := h
  rw [← hp.date h₀ hm ha₁]
  cases hb₁ : s₁.db.job B with
  | some b₁ =>
    rw [← hq.date h₀ hm hb₁]
    exact hlt b₁ hb₁
  | none =>
    refine lt_of_le_of_ne ?_ (by rw [hp.date h₀ hm ha₁]; exact hne)
    rcases le_total m q with hle | hle
    · exact dated_in_order h₀ hdb hturn hm hq.state hle hb₁ ha₁ hq.job
    · -- a job that has started is there from then on
      obtain ⟨b', hb', -⟩ :=
        keepsDates_of_reach h₀ hq.state.reach (hq.state.between hm hle) _ _ hq.job
      rw [hb₁] at hb'
      cases hb'

/-- **Jobs that ask for the same start in the order in which they were submitted**, where
requests are served in turn. -/
theorem starts_in_order (h₀ : s₀.threads = []) (hdb : SubmittedBy s₀.clock s₀.db)
    (hturn : ServesInTurn app s₀ ls) {A B : Uuid} {a b : Job} {p q : Nat} {sp sq : System}
    (hp : StartsAt app s₀ ls p A sp a) (hq : StartsAt app s₀ ls q B sq b)
    (halike : ∀ a', sq.db.job A = some a' → a'.Alike b) (hlt : a.createdAt < b.createdAt) :
    p < q := by
  by_contra hle
  obtain ⟨l, i, th, hrun, hl, hc, hclaim⟩ := hq.claim h₀
  have hturn' : ServesInTurn app s₀ (ls.take q) := by
    rw [← List.take_append_drop q ls] at hturn
    exact hturn.take
  have hAq : ∃ a', sq.db.job A = some a' := by
    cases hA : sq.db.job A with
    | some a' => exact ⟨a', rfl⟩
    | none => exact absurd (dated_in_order h₀ hdb hturn hq.state hp.state (not_lt.1 hle) hA hq.job
        hp.job) (not_le.2 hlt)
  obtain ⟨a', ha'⟩ := hAq
  obtain rfl := Db.id_of_job ha'
  have hqueued : a'.status = .queued := by
    obtain ⟨s', -, j, j', hj, -, hj', -⟩ := hp.next
    rw [hp.job, Option.some.injEq] at hj
    obtain ⟨j₁, hj₁, hback⟩ := onward_of_reach h₀ hq.state.reach
      (hq.state.between hp.state (not_lt.1 hle)) _ _ ha'
    rw [hp.job, Option.some.injEq] at hj₁
    exact hback (by rw [← hj₁, hj]; exact hj')
  refine none_left_waiting h₀ hrun hturn' hc hclaim ha' hqueued hq.job (halike a' ha') (Or.inl ?_)
  rw [hp.date h₀ hq.state ha']
  exact hlt

/-! ## Nodes that get nothing -/

/-- Why an agent who asks for a job may get none. -/
def NothingToDo (app : App) (db : Database) (bearer : Option Str) : Prop :=
  ∃ n, AgentOf app db bearer n ∧ (n.status = .draining ∨
    (∃ id j, db.job id = some j ∧ j.runningOn n.id = true) ∨
    ∀ id j, db.job id = some j → j.status = .queued → j.Ineligible n)

/-- **A request for a job that is served alone gets one**, unless the node is draining or
busy, or nothing in the queue is for it. -/
theorem nothingToDo_of_served {bearer : Option Str} {moments : Nat → Moment} {w : Scene}
    (h : served app (.claimJob bearer) db moments = (.ok .noContent, w)) :
    NothingToDo app db bearer := by
  refine Prog.Leads.of_ok (Q := fun res _ => res = .noContent → NothingToDo app db bearer)
    (E := fun _ => True) ?_ h rfl
  refine leads_bind (leads_currentNode (fun _ _ => trivial) fun n w₁ h₁ _ hn => leads_bind ?_)
  unfold claimForNode
  split
  · rename_i hdrain
    exact leads_ret fun _ => ⟨n, hn, Or.inl hdrain⟩
  refine leads_bind (leads_bind (leads_select ?_))
  have hview₁ : w₁.ses.tx.view w₁.db = db := h₁.view
  rw [hview₁]
  rcases pickRow_cases (w₁.moments 0).pick (matching db (.runningForNode n.id)) with
    ⟨hpick, -⟩ | ⟨r, hr, hpick⟩
  · rw [hpick]
    refine leads_ret (leads_bind (leads_bind (leads_selectAll ?_)))
    have h₂ := h₁.trans (w₁.same_reads (.select (.runningForNode n.id)))
    have hview₂ : (w₁.reads (.select (.runningForNode n.id))).ses.tx.view
        (w₁.reads (.select (.runningForNode n.id))).db = db := h₂.view
    rw [hview₂]
    generalize hrows : matching db n.candidates = rows
    cases rows with
    | nil =>
      refine leads_ret (leads_ret (leads_bind (leads_rollback (leads_ret (leads_ret ?_)))))
      refine fun _ => ⟨n, hn, Or.inr (Or.inr fun id j hj hq => ?_)⟩
      by_contra hel
      have hmem : Row.job j ∈ matching db n.candidates :=
        mem_matching.2 ⟨Db.mem_of_get (Db.get_job_iff.2 hj), claimable_of_queued hq hel⟩
      rw [hrows] at hmem
      simp at hmem
    | cons r rs =>
      -- nobody else has locked the first candidate
      have hr : r ∈ matching db n.candidates := by rw [hrows]; exact List.mem_cons_self ..
      obtain ⟨hmem, hholds⟩ := mem_matching.1 hr
      cases r with
      | job j =>
        refine leads_bind (leads_bind (leads_tryLock_of (r := .job j) ?_ hholds (leads_ret ?_)))
        · have h₃ := h₂.trans (World.same_reads _ (.selectAll n.candidates))
          exact (congrArg (fun d : Database => d.get (.job j.id)) h₃.view).trans
            (Db.get_of_mem hmem)
        · refine leads_ret (leads_bind (leads_now (leads_ret (leads_bind
            (leads_flush (fun _ _ _ => trivial) fun w₂ _ => leads_ret ?_)))))
          refine leads_bind (leads_createAudit (fun _ _ _ => trivial) fun w₃ a _ _ _ _ => ?_)
          refine leads_bind (leads_commitTx fun w₄ _ _ _ => leads_bind ?_)
          exact leads_of_reads (reads_refreshJob _) (fun j' w₅ _ _ => leads_ret (leads_ret
            fun he => by cases he)) fun _ _ => trivial
      | _ => cases hholds
  · rw [hpick]
    obtain ⟨hmem, hholds⟩ := mem_matching.1 hr
    cases r with
    | job j =>
      refine leads_ret (leads_ret (leads_ret ?_))
      exact fun _ => ⟨n, hn, Or.inr (Or.inl ⟨j.id, j, Db.get_job_iff.1 (Db.get_of_mem hmem),
        hholds⟩)⟩
    | _ => cases hholds

/-! ## First come, first served -/

/-- What holds of the claims in every run from the store. -/
structure ServesInOrder (app : App) (db : Database) (clock : Time) : Prop where
  /-- A claim takes the first job that is for its node and not locked. -/
  takesFirst : ∀ (ls : List (Label Request)) (s : System) (l : Label Request) (i : Nat)
    (th : Pending) (id : Uuid), runFrom (controlPlane app) (idle db clock) ls = some s →
    Commits s l i th → ClaimsJob th.req th.ses.tx id → TakesFirst app (idle db clock) ls s i th id
  /-- Where requests are served in turn, no job starts while one waits that asks for the
  same and was submitted before. -/
  noneWaits : ∀ (ls : List (Label Request)) (q : Nat) (sq : System) (a b : Job),
    ServesInTurn app (idle db clock) ls → StartsAt app (idle db clock) ls q b.id sq b →
    sq.db.job a.id = some a → a.Alike b → a.Earlier b → a.status ≠ .queued
  /-- Where they are, jobs that ask for the same start in the order of their submission. -/
  startsInOrder : ∀ (ls : List (Label Request)) (p q : Nat) (sp sq : System) (A B : Uuid)
    (a b : Job), ServesInTurn app (idle db clock) ls → StartsAt app (idle db clock) ls p A sp a →
    StartsAt app (idle db clock) ls q B sq b → (∀ a', sq.db.job A = some a' → a'.Alike b) →
    a.createdAt ≠ b.createdAt → SubmittedBefore app (idle db clock) ls A B → p < q
  /-- An agent that asks while nothing else goes on gets nothing only where its node is
  draining or busy, or no job of the queue is for it. -/
  nothing : ∀ (s s' : System) (ls : List (Label Request)) (bearer : Option Str) (th : Pending),
    (∀ t ∈ s.threads, t.ses.tx = {}) → OnlyRuns s.threads.length ls →
    runFrom (controlPlane app) s (.spawn (.claimJob bearer) :: ls) = some s' →
    s'.threads[s.threads.length]? = some th → th.prog.result = some (.ok .noContent) →
    NothingToDo app s.db bearer

/-- **Scheduling is first come, first served** among the jobs a node may take. -/
theorem jobs_are_served_in_order (app : App) {db : Database} {clock : Time}
    (hdb : SubmittedBy clock db) : ServesInOrder app db clock := by
  refine ⟨fun ls s l i th id hrun hc hclaim => takes_first rfl hrun hc hclaim, ?_, ?_, ?_⟩
  · intro ls q sq a b hturn hq ha halike hlt hqueued
    obtain ⟨l, i, th, hrun, -, hc, hclaim⟩ := hq.claim rfl
    have hturn' : ServesInTurn app (idle db clock) (ls.take q) := by
      rw [← List.take_append_drop q ls] at hturn
      exact hturn.take
    exact none_left_waiting rfl hrun hturn' hc hclaim ha hqueued hq.job halike hlt
  · intro ls p q sp sq A B a b hturn hp hq halike hne hbefore
    exact starts_in_order rfl hdb hturn hp hq halike
      (date_lt_of_submittedBefore rfl hdb hturn hbefore hp hq hne)
  · intro s s' ls bearer th hquiet hls hrun hth hres
    obtain ⟨moments, w, -, hserved, -⟩ := served_of_run hls hquiet hrun hth hres
    exact nothingToDo_of_served hserved

/-- Two jobs in the queue, submitted one after the other. -/
def backlogDb : Database := queuedDb.insert (.job { sampleJob with id := 4, createdAt := 1 })

theorem jobs_are_served_in_order_at_backlogDb :
    ServesInOrder plainApp backlogDb 1 ∧
      (runFrom (controlPlane plainApp) (idle backlogDb 1) claimedRun).bind (fun s =>
        (s.db.job 3).bind fun a => (s.db.job 4).map fun b => (a.status, b.status)) =
          some (.running, .queued) := by
  refine ⟨jobs_are_served_in_order plainApp fun id j hj => ?_, by decide +kernel⟩
  have hmem := Db.mem_of_get (Db.get_job_iff.2 hj)
  rw [show backlogDb.rows = [.user sampleUser, .node sampleNode, .job sampleJob,
    .job { sampleJob with id := 4, createdAt := 1 }] by decide +kernel] at hmem
  simp only [List.mem_cons, reduceCtorEq, Row.job.injEq, List.not_mem_nil, or_false,
    false_or] at hmem
  rcases hmem with rfl | rfl <;> decide

end GpuNetwork
