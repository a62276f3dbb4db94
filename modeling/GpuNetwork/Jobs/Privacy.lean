import GpuNetwork.Commits.Alone
import GpuNetwork.Commits.Footprint
import GpuNetwork.ControlPlane.Listings
import GpuNetwork.Jobs.LogTail
import GpuNetwork.Store.Twin

/-!
# Privacy

What a user learns from the routes of jobs depends on their own data: their account, their
jobs and the logs of these.

* `Agree` — two stores with the same data of a user.
* `Beside`, `twin_ownJob`, … — the repositories on two such stores.
* `job_routes_keep_privacy` — the routes answer the same on both and leave two such stores.
-/

namespace GpuNetwork

open ReadCommitted ReadCommitted.Spec

/-! ## Agreement -/

/-- The two stores have the same account of the user, the same jobs of theirs and the same
lines of these jobs. -/
structure Agree (u : User) (a b : Database) : Prop where
  account : a.user u.id = b.user u.id
  jobs : ∀ j : Job, j.userId = u.id → (.job j ∈ a.rows ↔ .job j ∈ b.rows)
  lines : ∀ (j : Job) (l : JobLog), j.userId = u.id → .job j ∈ a.rows → l.jobId = j.id →
    (.jobLog l ∈ a.rows ↔ .jobLog l ∈ b.rows)

/-- The unique constraints hold in the store. -/
def Constrained (db : Database) : Prop :=
  ∀ a ∈ db.rows, ∀ b ∈ db.rows, a ≠ b → a.clash b = false

variable {u : User} {a b : Database}

theorem mem_job_iff {db : Database} {j : Job} : .job j ∈ db.rows ↔ db.job j.id = some j := by
  rw [← Db.get_job_iff]
  exact ⟨Db.get_of_mem, Db.mem_of_get⟩

theorem mem_jobLog_iff {db : Database} {l : JobLog} :
    .jobLog l ∈ db.rows ↔ db.get (.jobLog l.id) = some (.jobLog l) :=
  ⟨Db.get_of_mem, Db.mem_of_get⟩

/-- A job of the user's is found in both stores. -/
theorem Agree.job_iff (h : Agree u a b) {id : Uuid} {j : Job} (hj : j.userId = u.id) :
    a.job id = some j ↔ b.job id = some j := by
  constructor
  · intro hget
    obtain rfl := Db.id_of_job hget
    exact mem_job_iff.1 ((h.jobs j hj).1 (mem_job_iff.2 hget))
  · intro hget
    obtain rfl := Db.id_of_job hget
    exact mem_job_iff.1 ((h.jobs j hj).2 (mem_job_iff.2 hget))

/-- The user's page of jobs. -/
theorem Agree.jobsPage (h : Agree u a b) (status : Option Str) (bound : Option (Time × Uuid)) :
    matching b (.jobsPage u.id status bound) = matching a (.jobsPage u.id status bound) := by
  refine (matching_eq Row.place (fun x y hx hy => ?_) (fun x y hx hy he => ?_) fun x => ?_).symm
  · obtain ⟨i, rfl, -⟩ := holds_jobsPage.1 hx
    obtain ⟨j, rfl, -⟩ := holds_jobsPage.1 hy
    exact newerFirst_iff (a := .job i) (b := .job j)
  · obtain ⟨hmem, hholds⟩ := mem_matching.1 hx
    obtain ⟨hmem', hholds'⟩ := mem_matching.1 hy
    obtain ⟨i, rfl, -⟩ := holds_jobsPage.1 hholds
    obtain ⟨j, rfl, -⟩ := holds_jobsPage.1 hholds'
    have hid : i.id = j.id := congrArg (fun p : Time × Uuid => p.2) (toLex.injective he)
    exact List.inj_on_of_nodup_map a.nodup hmem hmem' (congrArg Key.job hid)
  · rw [mem_matching, mem_matching]
    refine and_congr_left fun hholds => ?_
    obtain ⟨j, rfl, hpasses, -⟩ := holds_jobsPage.1 hholds
    have howner : j.userId = u.id := by
      simp only [Job.passes, Bool.and_eq_true, decide_eq_true_eq] at hpasses
      exact hpasses.1
    exact h.jobs j howner

/-- The lines of a job of the user's. -/
theorem Agree.logsAfter (h : Agree u a b) (hunique : Constrained a) {j : Job}
    (hj : .job j ∈ a.rows) (howner : j.userId = u.id) (mark : Int) :
    matching b (.logsAfter j.id mark) = matching a (.logsAfter j.id mark) := by
  have hline : ∀ {r : Row}, (Cond.logsAfter j.id mark).holds r = true →
      ∃ l, r = .jobLog l ∧ l.jobId = j.id := by
    intro r hr
    cases r with
    | jobLog l =>
      simp only [Cond.holds, Bool.and_eq_true, decide_eq_true_eq] at hr
      exact ⟨l, rfl, hr.1⟩
    | _ => cases hr
  refine (matching_eq linePlace (fun x y hx hy => ?_) (fun x y hx hy he => ?_) fun x => ?_).symm
  · obtain ⟨l, rfl, -⟩ := hline hx
    obtain ⟨m, rfl, -⟩ := hline hy
    show decide (l.sequence ≤ m.sequence) = true ↔ m.place ≤ l.place
    simp [JobLog.place]
  · obtain ⟨hmem, hholds⟩ := mem_matching.1 hx
    obtain ⟨hmem', hholds'⟩ := mem_matching.1 hy
    obtain ⟨l, rfl, hl⟩ := hline hholds
    obtain ⟨m, rfl, hm⟩ := hline hholds'
    by_contra hne
    have hclash := hunique _ hmem _ hmem' hne
    rw [Row.clash, decide_eq_true (hl.trans hm.symm),
      decide_eq_true (OrderDual.toDual_inj.1 he)] at hclash
    cases hclash
  · rw [mem_matching, mem_matching]
    refine and_congr_left fun hholds => ?_
    obtain ⟨l, rfl, hl⟩ := hline hholds
    exact h.lines j l howner hj hl

/-- Stores that differ elsewhere. -/
theorem Agree.congr {a' b' : Database} (h : Agree u a b)
    (ha : ∀ k, (∀ id, k ≠ .auditLog id) → a'.get k = a.get k)
    (hb : ∀ k, (∀ id, k ≠ .auditLog id) → b'.get k = b.get k) : Agree u a' b' := by
  have hjob : ∀ {c c' : Database}, (∀ k, (∀ id, k ≠ .auditLog id) → c'.get k = c.get k) →
      ∀ j : Job, .job j ∈ c'.rows ↔ .job j ∈ c.rows := by
    intro c c' hc j
    rw [mem_job_iff, mem_job_iff, ← Db.get_job_iff, ← Db.get_job_iff, hc _ (by simp)]
  have hline : ∀ {c c' : Database}, (∀ k, (∀ id, k ≠ .auditLog id) → c'.get k = c.get k) →
      ∀ l : JobLog, .jobLog l ∈ c'.rows ↔ .jobLog l ∈ c.rows := by
    intro c c' hc l
    rw [mem_jobLog_iff, mem_jobLog_iff, hc _ (by simp)]
  refine ⟨?_, fun j hj => ?_, fun j l hj hmem hl => ?_⟩
  · rw [Db.user_congr (ha _ (by simp)), Db.user_congr (hb _ (by simp))]
    exact h.account
  · rw [hjob ha, hjob hb]
    exact h.jobs j hj
  · rw [hline ha, hline hb]
    exact h.lines j l hj ((hjob ha j).1 hmem) hl

/-- The same change of a job of the user's. -/
theorem Agree.update (h : Agree u a b) {old new : Job} (hold : a.job old.id = some old)
    (howner : old.userId = u.id) :
    Agree u (a.update (.job old) (.job new)) (b.update (.job old) (.job new)) := by
  have hold' := (h.job_iff howner).1 hold
  have hget : ∀ {c : Database} {k : Key}, k ≠ .job old.id →
      (c.update (.job old) (.job new)).get k = c.get k := fun hne => Db.get_update_of_ne hne
  have hnew : ∀ {c : Database}, c.job old.id = some old →
      (c.update (.job old) (.job new)).job old.id = some (old.merge new old) := by
    intro c hc
    refine Db.get_job_iff.1 ?_
    rw [Db.get_update, Db.get_job_iff.2 hc]
    simp [Row.key, Row.merge]
  have hjob : ∀ {c : Database}, c.job old.id = some old → ∀ j : Job,
      .job j ∈ (c.update (.job old) (.job new)).rows ↔
        if j.id = old.id then j = old.merge new old else .job j ∈ c.rows := by
    intro c hc j
    rw [mem_job_iff]
    by_cases hid : j.id = old.id
    · rw [if_pos hid, hid, hnew hc, Option.some.injEq, eq_comm]
    · rw [if_neg hid, ← Db.get_job_iff, hget (by simpa using hid), Db.get_job_iff, mem_job_iff]
  have hline : ∀ {c : Database} (l : JobLog),
      .jobLog l ∈ (c.update (.job old) (.job new)).rows ↔ .jobLog l ∈ c.rows := by
    intro c l
    rw [mem_jobLog_iff, mem_jobLog_iff, hget (by simp)]
  refine ⟨?_, fun j hj => ?_, fun j l hj hmem hl => ?_⟩
  · rw [Db.user_congr (hget (by simp)), Db.user_congr (hget (by simp))]
    exact h.account
  · rw [hjob hold, hjob hold']
    split
    · exact Iff.rfl
    · exact h.jobs j hj
  · rw [hline, hline]
    rw [hjob hold] at hmem
    split at hmem
    · rename_i hid
      exact h.lines old l howner (mem_job_iff.2 hold) (hl.trans hid)
    · exact h.lines j l hj hmem hl

/-! ## The repositories on two stores -/

/-- Two worlds that have gone the same way, with stores that agree. -/
structure Beside (u : User) (w v : Scene) : Prop where
  moments : ∀ k, v.moments k = w.moments k
  stored : Agree u w.db v.db
  seen : Agree u (w.ses.tx.view w.db) (v.ses.tx.view v.db)
  account : (w.ses.tx.view w.db).user u.id = some u

/-- The stores agree. -/
def StoresAgree (u : User) (w v : Scene) : Prop := Agree u w.db v.db

section Rules

variable {w v w' v' : Scene} {α : Type}

/-- Queries leave the worlds beside each other. -/
theorem Beside.same (h : Beside u w v) (hw : w.Same w') (hv : v.Same v')
    (hmoments : ∀ k, v'.moments k = w'.moments k) : Beside u w' v' := by
  refine ⟨hmoments, ?_, ?_, ?_⟩
  · rw [hw.db, hv.db]
    exact h.stored
  · rw [hw.view, hv.view]
    exact h.seen
  · rw [hw.view]
    exact h.account

/-- A job is looked up, and one that is not the user's is as good as none. -/
theorem twin_ownJob {id : Uuid} {f : Option Job → Handler α} {e : ApiError}
    {Q : α → Scene → Scene → Prop} (h : Beside u w v)
    (hother : ∀ o : Option Job, (∀ j, o = some j → j.userId ≠ u.id) → f o = .throw e)
    (hown : ∀ j w' v', j.userId = u.id → (w'.ses.tx.view w'.db).job id = some j →
      w.Same w' → v.Same v' → (∀ k, w'.moments k = w.moments (k + 1)) → Beside u w' v' →
      (f (some j)).Twin .database (f (some j)) w' v' Q (StoresAgree u)) :
    (getJobById id >>= f).Twin .database (getJobById id >>= f) w v Q (StoresAgree u) := by
  have hw := w.same_reads (.select (.byKey (.job id)))
  have hv := v.same_reads (.select (.byKey (.job id)))
  have hbeside := h.same hw hv fun k => h.moments (k + 1)
  unfold getJobById
  rw [selectJob_bind]
  refine twin_select (pickRow_byKey _ _ _) (pickRow_byKey _ _ _) ?_
  show Prog.Twin ApiError.database (f ((w.ses.tx.view w.db).job id))
    (f ((v.ses.tx.view v.db).job id)) _ _ _ _
  by_cases hmine : ∃ j, (w.ses.tx.view w.db).job id = some j ∧ j.userId = u.id
  · obtain ⟨j, hj, howner⟩ := hmine
    rw [hj, (h.seen.job_iff howner).1 hj]
    exact hown j _ _ howner (by rw [hw.view]; exact hj) hw hv (fun _ => rfl) hbeside
  · have hleft : ∀ j, (w.ses.tx.view w.db).job id = some j → j.userId ≠ u.id :=
      fun j hj howner => hmine ⟨j, hj, howner⟩
    have hright : ∀ j, (v.ses.tx.view v.db).job id = some j → j.userId ≠ u.id :=
      fun j hj howner => hmine ⟨j, (h.seen.job_iff howner).2 hj, howner⟩
    rw [hother _ hleft, hother _ hright]
    exact twin_throw hbeside.stored

/-- A job of the user's is written. -/
theorem twin_flushJob {j new : Job} {Q : Unit → Scene → Scene → Prop} (h : Beside u w v)
    (hj : (w.ses.tx.view w.db).job j.id = some j) (howner : j.userId = u.id)
    (hne : Row.job new ≠ .job j) (hrefs : Row.refs (.job new) = Row.refs (.job j))
    (hQ : ∀ w' v', Beside u w' v' →
      (∃ x, (w'.ses.tx.view w'.db).job j.id = some x ∧ x.userId = u.id) →
      (∀ k, w'.moments k = w.moments (k + 1)) →
      (∀ id, (w'.ses.tx.view w'.db).get (.auditLog id) =
        (w.ses.tx.view w.db).get (.auditLog id)) →
      (∀ id, (v'.ses.tx.view v'.db).get (.auditLog id) =
        (v.ses.tx.view v.db).get (.auditLog id)) → Q () w' v') :
    (flush (.job j) (.job new)).Twin .database (flush (.job j) (.job new)) w v Q
      (StoresAgree u) := by
  have hview : ∀ x : Scene, ((x.next x.db (x.ses.takes (.update (.job j) (.job new)) x.db
      [.update (.job j) (.job new)] (updateLocks (Row.job j) (Row.job new)))).ses.tx.view
      (x.next x.db (x.ses.takes (.update (.job j) (.job new)) x.db [.update (.job j) (.job new)]
        (updateLocks (Row.job j) (Row.job new)))).db) =
      (x.ses.tx.view x.db).update (.job j) (.job new) := fun x => (x.adds_takes _ _ _).view
  have hother : ∀ (x : Database) (k : Key), k ≠ .job j.id →
      (x.update (.job j) (.job new)).get k = x.get k := fun x k hk => Db.get_update_of_ne hk
  have hj' := (h.seen.job_iff howner).1 hj
  unfold flush
  rw [if_neg hne]
  refine twin_bind (twin_update (Db.get_job_iff.2 hj) (Db.get_job_iff.2 hj') ?_ h.stored
    (twin_ret (twin_ret (hQ _ _ ⟨fun k => h.moments (k + 1), h.stored, ?_, ?_⟩ ?_ (fun _ => rfl)
      ?_ ?_))))
  · simp [newRefs, Schema.refs, hrefs]
  · rw [hview, hview]
    exact h.seen.update hj howner
  · rw [hview, Db.user_congr (hother _ _ (by simp))]
    exact h.account
  · refine ⟨j.merge new j, ?_, howner⟩
    rw [hview]
    refine Db.get_job_iff.1 ?_
    rw [Db.get_update, Db.get_job_iff.2 hj]
    simp [Row.key, Row.merge]
  · intro id
    rw [hview, hother _ _ (by simp)]
  · intro id
    rw [hview, hother _ _ (by simp)]

/-- The same audit row goes into both stores, if its identifier is free there. -/
theorem twin_createAudit {event : Event} {data : EventData} {client : Client}
    {Q : Unit → Scene → Scene → Prop} (h : Beside u w v)
    (hw : (w.ses.tx.view w.db).get (.auditLog (w.moments 0).pick) = none)
    (hv : (v.ses.tx.view v.db).get (.auditLog (w.moments 0).pick) = none)
    (hQ : ∀ a w' v', w.Adds w' [.insert (.auditLog a)] → v.Adds v' [.insert (.auditLog a)] →
      Q () w' v') :
    (createAudit event (some u.id) data client).Twin .database
      (createAudit event (some u.id) data client) w v Q (StoresAgree u) := by
  have hfree : ∀ {db : Database} {a : AuditLog}, db.get (.auditLog a.id) = none →
      occupied db (.auditLog a) = false :=
    fun hnone => occupied_eq_false_iff.2 ⟨hnone, fun x _ => by cases x <;> rfl⟩
  have huser : ∀ {db : Database}, db.user u.id = some u → present db [Key.user u.id] = true := by
    intro db hu
    simp [present, Db.get_user_iff.2 hu]
  refine twin_bind (twin_random (h.moments 0) (twin_ret (twin_bind (twin_txTime (h.moments 1)
    (twin_ret (twin_insert (hfree hw) (hfree hv) (huser h.account)
    (huser (h.seen.account ▸ h.account)) h.stored ?_))))))
  exact twin_ret (hQ _ _ _ (w.same_next.adds ((World.same_next _).adds (World.adds_takes ..)))
    (v.same_next.adds ((World.same_next _).adds (World.adds_takes ..))))

/-- A job of the user's that has been written is read back. -/
theorem twin_refreshJob {id : Uuid} {j : Job} (h : StoresAgree u w v)
    (hw : (w.ses.tx.view w.db).job id = some j) (hv : (v.ses.tx.view v.db).job id = some j) :
    (refreshJob id).Twin .database (refreshJob id) w v (fun _ => StoresAgree u)
      (StoresAgree u) := by
  have hgetw := (pickRow_byKey _ _ (w.moments 0).pick).trans (Db.get_job_iff.2 hw)
  have hgetv := (pickRow_byKey _ _ (v.moments 0).pick).trans (Db.get_job_iff.2 hv)
  exact twin_bind (twin_bind (twin_select hgetw hgetv (twin_ret (twin_ret (twin_ret h)))))

/-- What the user has done to a job is recorded and committed. -/
theorem twin_recorded {id : Uuid} {event : Event} {data : EventData} {client : Client}
    (h : Beside u w v) (hjob : ∃ x, (w.ses.tx.view w.db).job id = some x ∧ x.userId = u.id)
    (hw : (w.ses.tx.view w.db).get (.auditLog (w.moments 0).pick) = none)
    (hv : (v.ses.tx.view v.db).get (.auditLog (w.moments 0).pick) = none) :
    (do
      createAudit event (some u.id) data client
      commit
      refreshJob id : Handler Job).Twin .database (do
        createAudit event (some u.id) data client
        commit
        refreshJob id) w v (fun _ => StoresAgree u) (StoresAgree u) := by
  obtain ⟨j, hj, howner⟩ := hjob
  have hother : ∀ {db : Database} {a : AuditLog} (k : Key), (∀ id, k ≠ .auditLog id) →
      (applyAll [.insert (.auditLog a)] db).get k = db.get k :=
    fun k hk => get_applyAll_of_not_target (fun x hx => by
      rw [List.mem_singleton.1 hx]
      exact Ne.symm (hk _)) _
  refine twin_bind (twin_createAudit h hw hv fun a w₁ v₁ hw₁ hv₁ => twin_bind (twin_commit
    (twin_ret (twin_refreshJob (j := j) ?_ ?_ ?_))))
  · show Agree u (w₁.ses.tx.view w₁.db) (v₁.ses.tx.view v₁.db)
    rw [hw₁.view, hv₁.view]
    exact h.seen.congr hother hother
  · show (w₁.ses.tx.view w₁.db).job id = some j
    rw [hw₁.view]
    exact Db.get_job_iff.1 ((hother _ (by simp)).trans (Db.get_job_iff.2 hj))
  · show (v₁.ses.tx.view v₁.db).job id = some j
    rw [hv₁.view]
    exact Db.get_job_iff.1 ((hother _ (by simp)).trans
      (Db.get_job_iff.2 ((h.seen.job_iff howner).1 hj)))

/-- What `cancelWrite` does to a job of the user's that has not ended. -/
theorem twin_cancelWrite {j : Job} {Q : JobStatus → Scene → Scene → Prop} (h : Beside u w v)
    (hj : (w.ses.tx.view w.db).job j.id = some j) (howner : j.userId = u.id)
    (hQ : ∀ phase w' v', Beside u w' v' →
      (∃ x, (w'.ses.tx.view w'.db).job j.id = some x ∧ x.userId = u.id) →
      (∃ i ∈ [0, 2], w'.moments 0 = w.moments i) →
      (∀ id, (w'.ses.tx.view w'.db).get (.auditLog id) =
        (w.ses.tx.view w.db).get (.auditLog id)) →
      (∀ id, (v'.ses.tx.view v'.db).get (.auditLog id) =
        (v.ses.tx.view v.db).get (.auditLog id)) → Q phase w' v') :
    (cancelWrite j).Twin .database (cancelWrite j) w v Q (StoresAgree u) := by
  have hhere : ∀ phase, Q phase w v := fun phase =>
    hQ phase w v h ⟨j, hj, howner⟩ ⟨0, by simp, rfl⟩ (fun _ => rfl) fun _ => rfl
  have hnow : Beside u (w.next w.db w.ses) (v.next v.db v.ses) :=
    h.same w.same_next v.same_next fun k => h.moments (k + 1)
  have hended : ∀ status : JobStatus, (do
      assertTransition status .cancelled
      pure status : Handler JobStatus).Twin .database (do
        assertTransition status .cancelled
        pure status) w v Q (StoresAgree u) := by
    intro status
    refine twin_bind (twin_of_pure ?_ (fun _ => twin_ret (hhere status)) h.stored)
    unfold assertTransition
    split <;> trivial
  unfold cancelWrite
  cases hstatus : j.status with
  | queued =>
    refine twin_bind (twin_now (h.moments 0) (twin_ret (twin_bind (twin_flushJob hnow hj howner
      (Job.terminated_ne rfl (by rw [hstatus]; rfl) _ _ _) rfl
      fun w₁ v₁ hb hjob hmoments haw hav => twin_ret ?_))))
    exact hQ _ _ _ hb hjob ⟨2, by simp, hmoments 0⟩ haw hav
  | running =>
    dsimp only
    split
    · rename_i hnone
      have hne : ∀ now, Row.job (j.cancelRequested now) ≠ .job j := by
        intro now he
        have hcancel := congrArg Job.cancelRequestedAt (Row.job.inj he)
        rw [hnone] at hcancel
        cases hcancel
      refine twin_bind (twin_now (h.moments 0) (twin_ret (twin_bind (twin_flushJob hnow hj howner
        (hne _) rfl fun w₁ v₁ hb hjob hmoments haw hav => twin_ret ?_))))
      exact hQ _ _ _ hb hjob ⟨2, by simp, hmoments 0⟩ haw hav
    · exact twin_ret (hhere _)
  | completed => exact hended _
  | failed => exact hended _
  | cancelled => exact hended _

/-- A job of the user's is cancelled. -/
theorem twin_cancelOrRequestCancel {j : Job} {event : Event} {target : Option Uuid}
    {client : Client} (h : Beside u w v) (hj : (w.ses.tx.view w.db).job j.id = some j)
    (howner : j.userId = u.id)
    (hw : ∀ i ∈ [0, 2], (w.ses.tx.view w.db).get (.auditLog (w.moments i).pick) = none)
    (hv : ∀ i ∈ [0, 2], (v.ses.tx.view v.db).get (.auditLog (w.moments i).pick) = none) :
    (cancelOrRequestCancel j event u u.id target client).Twin .database
      (cancelOrRequestCancel j event u u.id target client) w v (fun _ => StoresAgree u)
      (StoresAgree u) := by
  have hrest : (do
      let phase ← cancelWrite j
      createAudit event (some u.id)
        { jobId := some j.id, phase := some phase, actorUserId := some u.id,
          actorEmail := some u.email, targetUserId := target } client
      commit
      refreshJob j.id : Handler Job).Twin .database (do
        let phase ← cancelWrite j
        createAudit event (some u.id)
          { jobId := some j.id, phase := some phase, actorUserId := some u.id,
            actorEmail := some u.email, targetUserId := target } client
        commit
        refreshJob j.id) w v (fun _ => StoresAgree u) (StoresAgree u) := by
    refine twin_bind (twin_cancelWrite h hj howner fun phase w₁ v₁ hb hjob hmoment haw hav => ?_)
    obtain ⟨i, hi, hmoment⟩ := hmoment
    refine twin_recorded hb hjob ?_ ?_
    · rw [haw, hmoment]
      exact hw i hi
    · rw [hav, hmoment]
      exact hv i hi
  unfold cancelOrRequestCancel
  split
  · refine twin_bind (twin_of_pure ?_ (fun _ => hrest) h.stored)
    unfold assertTransition
    split <;> trivial
  · exact hrest

end Rules

/-! ## The routes -/

/-- The routes of jobs that a user can call for their own. -/
inductive JobRoute (caller : Caller) : Request → Prop
  | listJobs (status cursor : Option Str) (limit : Nat) :
      JobRoute caller (.listJobs caller status cursor limit)
  | getJob (jobId : Uuid) : JobRoute caller (.getJob caller jobId)
  | getLogs (jobId : Uuid) (afterSequence : Int) (limit : Nat) :
      JobRoute caller (.getLogs caller jobId afterSequence limit)
  | cancelJob (jobId : Uuid) : JobRoute caller (.cancelJob caller jobId)

/-- The caller is taken for the user. -/
def CallsAs (app : App) (db : Database) (moments : Nat → Moment) (caller : Caller) (u : User) :
    Prop :=
  ∃ w, (currentUser app caller.bearer).alone .database ({ db, moments } : Scene) = (.ok u, w)

section Routes

variable {app : App} {moments : Nat → Moment} {caller : Caller}

/-- The caller is identified in both worlds. -/
theorem twin_currentUser {α : Type} {f : User → Handler α} {Q : α → Scene → Scene → Prop}
    (h : Agree u a b) (ha : CallsAs app a moments caller u) (hb : CallsAs app b moments caller u)
    (hQ : ∀ w v, Beside u w v → (∀ k, w.moments k = moments (k + 2)) →
      w.ses.tx.view w.db = a → v.ses.tx.view v.db = b →
      (f u).Twin .database (f u) w v Q (StoresAgree u)) :
    (currentUser app caller.bearer >>= f).Twin .database (currentUser app caller.bearer >>= f)
      ({ db := a, moments } : Scene) ({ db := b, moments } : Scene) Q (StoresAgree u) := by
  obtain ⟨w, hw⟩ := ha
  obtain ⟨v, hv⟩ := hb
  obtain ⟨hsame, hshift, haccount⟩ := caller_of_alone hw
  obtain ⟨hsame', hshift', -⟩ := caller_of_alone hv
  have hstart : Beside u ({ db := a, moments } : Scene) ({ db := b, moments } : Scene) :=
    ⟨fun _ => rfl, h, h, haccount⟩
  refine twin_bind (twin_of_ok hw hv (hQ w v (hstart.same hsame hsame' fun k => ?_) hshift
    hsame.view hsame'.view))
  rw [hshift, hshift']

/-- A job of the user's, or the error that there is none. -/
theorem twin_getJobForUser {w v : Scene} {id : Uuid} {Q : Job → Scene → Scene → Prop}
    (h : Beside u w v)
    (hQ : ∀ j w' v', j.userId = u.id → .job j ∈ (w.ses.tx.view w.db).rows → w.Same w' →
      v.Same v' → Beside u w' v' → Q j w' v') :
    (getJobForUser u id).Twin .database (getJobForUser u id) w v Q (StoresAgree u) := by
  refine twin_ownJob (e := .jobNotFound id) h (fun o ho => ?_)
    fun j w' v' howner hj hw hv _ hbeside => ?_
  · cases o with
    | none => rfl
    | some j => exact if_pos (ho j rfl)
  · dsimp only
    rw [if_neg (not_not.2 howner)]
    refine twin_ret (hQ j w' v' howner ?_ hw hv hbeside)
    rw [hw.view] at hj
    exact Db.mem_of_get (Db.get_job_iff.2 hj)

/-- **A route answers the same on two stores with the same data of the user**, and leaves two
such stores. -/
theorem twin_jobRoute {req : Request} (hroute : JobRoute caller req) (h : Agree u a b)
    (hunique : Constrained a) (ha : CallsAs app a moments caller u)
    (hb : CallsAs app b moments caller u)
    (hfree : ∀ i ∈ [3, 5], a.get (.auditLog (moments i).pick) = none ∧
      b.get (.auditLog (moments i).pick) = none) :
    (handle app req).Twin .database (handle app req) ({ db := a, moments } : Scene)
      ({ db := b, moments } : Scene) (fun _ => StoresAgree u) (StoresAgree u) := by
  cases hroute with
  | listJobs status cursor limit =>
    refine twin_currentUser h ha hb fun w v hbeside _ hw hv => twin_bind (twin_bind ?_)
    refine twin_of_pure ?_ (fun bound => ?_) hbeside.stored
    · unfold cursorBound
      split
      · trivial
      · trivial
      · split
        · dsimp only
          split <;> trivial
        all_goals trivial
    · refine twin_bind (twin_bind (twin_of_pure ?_ (fun _ => ?_) hbeside.stored))
      · unfold sendTexts
        split <;> trivial
      · refine twin_bind (twin_selectAll ?_)
        rw [hw, hv, h.jobsPage]
        exact twin_ret (twin_ret (twin_ret (twin_ret hbeside.stored)))
  | getJob jobId =>
    refine twin_currentUser h ha hb fun w v hbeside _ _ _ => twin_bind ?_
    exact twin_getJobForUser hbeside fun j w' v' _ _ _ _ hbeside' => twin_ret hbeside'.stored
  | getLogs jobId afterSequence limit =>
    refine twin_currentUser h ha hb fun w v hbeside _ hw hv => twin_bind ?_
    refine twin_getJobForUser hbeside fun j w' v' howner hj hw' hv' hbeside' => ?_
    refine twin_bind (twin_bind (twin_selectAll ?_))
    rw [hw] at hj
    rw [hw'.view, hv'.view, hw, hv, h.logsAfter hunique hj howner]
    exact twin_ret (twin_ret (twin_ret hbeside'.stored))
  | cancelJob jobId =>
    refine twin_currentUser h ha hb fun w v hbeside hmoments hw hv => ?_
    refine twin_ownJob (e := .jobNotFound jobId) hbeside (fun o ho => ?_)
      fun j w' v' howner hj hw' hv' hshift hbeside' => ?_
    · cases o with
      | none => rfl
      | some j => exact if_pos (ho j rfl)
    · dsimp only
      rw [if_neg (not_not.2 howner)]
      have hid := Db.id_of_job hj
      have hpicks : ∀ i ∈ [0, 2], i + 3 ∈ [3, 5] := by simp
      have hshift' : ∀ i, w'.moments i = moments (i + 3) := fun i => by rw [hshift, hmoments]
      refine twin_bind ((twin_cancelOrRequestCancel hbeside' (by rw [hid]; exact hj) howner
        (fun i hi => ?_) fun i hi => ?_).mono fun x w'' v'' hagree => twin_ret hagree)
      · rw [hw'.view, hw, hshift']
        exact (hfree _ (hpicks i hi)).1
      · rw [hv'.view, hv, hshift']
        exact (hfree _ (hpicks i hi)).2

/-- A route writes no job but the one that is cancelled. -/
theorem target_of_jobRoute {req : Request} (hroute : JobRoute caller req) {w : Write Row Key}
    (hw : req.may w) {id : Uuid} (ht : w.target = .job id) : req = .cancelJob caller id := by
  cases hroute with
  | cancelJob jobId =>
    cases w with
    | insert r => cases r <;> first | exact False.elim hw | cases ht
    | update old new =>
      cases old with
      | job j =>
        cases new with
        | job j' =>
          have hid : j.id = jobId := hw
          rw [← hid, show j.id = id from Key.job.inj ht]
        | _ => cases hw
      | _ => cases ht
    | delete k => cases hw
  | _ =>
    cases w with
    | insert r => cases r <;> first | exact False.elim hw | cases ht
    | update old new => cases old <;> cases new <;> cases hw
    | delete k => cases hw

/-- **A job of somebody else stays as it is.** -/
theorem other_job_stays {req : Request} (hroute : JobRoute caller req)
    (hcalls : CallsAs app a moments caller u) {id : Uuid}
    (hother : ∀ j, a.job id = some j → j.userId ≠ u.id) :
    (served app req a moments).2.db.job id = a.job id := by
  by_cases hreq : req = .cancelJob caller id
  · subst hreq
    obtain ⟨w, hw⟩ := hcalls
    have hsame := (caller_of_alone hw).1
    have hleads : (cancelJob app caller id).Leads .database ({ db := a, moments } : Scene)
        (fun _ w' => w'.db = a) (fun w' => w'.db = a) := by
      refine leads_bind (leads_of_ok hw (leads_bind (leads_getJobById ?_)))
      have hdb : (w.reads (.select (.byKey (.job id)))).db = a := hsame.db
      rw [hsame.view]
      dsimp only
      rw [show ({} : Transaction).view a = a from rfl]
      cases hj : a.job id with
      | none => exact leads_throw hdb
      | some j =>
        dsimp only
        rw [if_pos (hother j hj)]
        exact leads_throw hdb
    have hdb : (served app (.cancelJob caller id) a moments).2.db = a := by
      unfold Prog.Leads at hleads
      unfold served
      split at hleads
      · rename_i heq
        exact (congrArg (fun x => x.2.db) heq).trans hleads
      · rename_i heq
        exact (congrArg (fun x => x.2.db) heq).trans hleads
    rw [hdb]
  · have hcommits : (serially app).CommitAll req a (served app req a moments).2.ses.past
        (served app req a moments).2.db := commits_of_served rfl
    refine hcommits.keeps (I := fun d => d.job id = a.job id) (fun d tx hcom hd => ?_) rfl
    rw [← hd]
    refine Db.job_congr (Tx.view_get (fun w hw ht => hreq ?_) d)
    exact target_of_jobRoute hroute (may_of_shape hcom.shape w hw) ht

/-- **The routes of jobs leak nothing.**  On two stores with the same data of the user, and
whatever else, each of them answers the same and leaves two such stores; and a job of
somebody else stays as it is. -/
theorem job_routes_keep_privacy {req : Request} (hroute : JobRoute caller req) (h : Agree u a b)
    (hunique : Constrained a) (ha : CallsAs app a moments caller u)
    (hb : CallsAs app b moments caller u)
    (hfree : ∀ i ∈ [3, 5], a.get (.auditLog (moments i).pick) = none ∧
      b.get (.auditLog (moments i).pick) = none) :
    (served app req a moments).1 = (served app req b moments).1 ∧
    Agree u (served app req a moments).2.db (served app req b moments).2.db ∧
    ∀ id, (∀ j, a.job id = some j → j.userId ≠ u.id) →
      (served app req a moments).2.db.job id = a.job id := by
  obtain ⟨hanswer, hstores⟩ := (twin_jobRoute hroute h hunique ha hb hfree).same
  exact ⟨hanswer, hstores, fun id hother => other_job_stays hroute ha hother⟩

end Routes

/-! ## A job of somebody else -/

/-- Another account's job, which the owner of the first one asks for. -/
def foreignJobDb : Database := queuedDb.insert (.job { sampleJob with id := 4, userId := 7 })

theorem rows_queuedDb : queuedDb.rows = [.user sampleUser, .node sampleNode, .job sampleJob] := by
  decide +kernel

theorem rows_foreignJobDb : foreignJobDb.rows = [.user sampleUser, .node sampleNode,
    .job sampleJob, .job { sampleJob with id := 4, userId := 7 }] := by
  decide +kernel

theorem agree_foreignJobDb : Agree sampleUser queuedDb foreignJobDb := by
  refine ⟨by decide +kernel, fun j hj => ?_, fun j l _ _ _ => ?_⟩
  · rw [rows_queuedDb, rows_foreignJobDb]
    have hne : j ≠ { sampleJob with id := 4, userId := 7 } := by
      rintro rfl
      cases hj
    simp [hne]
  · rw [rows_queuedDb, rows_foreignJobDb]
    simp

theorem job_routes_keep_privacy_at_foreignJobDb :
    (served plainApp (.cancelJob sampleCaller 4) queuedDb (draws 9)).1 =
        (served plainApp (.cancelJob sampleCaller 4) foreignJobDb (draws 9)).1 ∧
      Agree sampleUser (served plainApp (.cancelJob sampleCaller 4) queuedDb (draws 9)).2.db
        (served plainApp (.cancelJob sampleCaller 4) foreignJobDb (draws 9)).2.db := by
  have hunique : Constrained queuedDb := by
    intro x hx y hy hxy
    rw [rows_queuedDb] at hx hy
    simp only [List.mem_cons, List.not_mem_nil, or_false] at hx hy
    rcases hx with rfl | rfl | rfl <;> rcases hy with rfl | rfl | rfl <;>
      first | rfl | exact absurd rfl hxy
  have h := job_routes_keep_privacy (JobRoute.cancelJob 4) agree_foreignJobDb
    hunique (caller_plainApp queuedDb (by decide +kernel) 9)
    (caller_plainApp foreignJobDb (by decide +kernel) 9) (by decide +kernel)
  exact ⟨h.1, h.2.1⟩

end GpuNetwork
