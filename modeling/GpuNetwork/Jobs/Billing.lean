import GpuNetwork.Jobs.Assignment

/-!
# Billing

`complete_job` reads a job and the balance of its owner, and writes both back.  Over runs
of any number of these requests, each job that comes to its end is billed once, provided
that nothing a request has read is out of date when it commits.

* `Bill`, `bill_of_committing` — what one `complete_job` does to jobs, balances and log.
* `UpToDate` — what it has read still is so.
* `Books` — the invariant; `BilledOnce` — what it says about the jobs and the balances.
-/

namespace GpuNetwork

open ReadCommitted ReadCommitted.Spec

/-- The request reports a job. -/
def IsCompletion (req : Request) : Prop :=
  ∃ (bearer : Option Str) (id : Uuid) (p : CompleteJobRequest), req = .completeJob bearer id p

/-! ## What has been read -/

/-- The job has not come to its end since it was read, and the balance is as it was read;
or it has only sunk since, and the bill uses up what had been read. -/
def upToDate (db : Database) : Write Row Key → Bool
  | .update (.job old) (.job _) => (db.job old.id).all fun cur => !cur.status.isTerminal
  | .update (.user old) (.user new) =>
    (db.user old.id).all fun cur =>
      decide (cur.creditsGpuHours = old.creditsGpuHours) ||
        (decide (new.creditsGpuHours = 0) &&
          decide (cur.creditsGpuHours ≤ old.creditsGpuHours))
  | _ => true

/-- What the transaction has read of the rows it writes is still so. -/
def UpToDate (db : Database) (tx : Transaction) : Prop := ∀ w ∈ tx.writes, upToDate db w = true

instance (db : Database) (tx : Transaction) : Decidable (UpToDate db tx) :=
  inferInstanceAs (Decidable (∀ w ∈ tx.writes, upToDate db w = true))

/-- Only completions arrive, and each commits on what it has read. -/
def OrderlyCompletions : Terms Row Request ApiError Response := fun s l s' =>
  Admits IsCompletion s l s' ∧ OnCommits (fun s _ th => UpToDate s.db th.ses.tx) s l s'

/-! ## One bill -/

/-- The balances of a store after a bill of some hours to the account `uid`. -/
def Charged (a b : Database) (uid : Uuid) (hours : Int) : Prop :=
  ∀ x, (b.user x).map User.creditsGpuHours =
    if x = uid then (a.user x).map fun u => max 0 (u.creditsGpuHours - hours)
    else (a.user x).map User.creditsGpuHours

/-- The audit row bills the job `id`. -/
structure Bills (a : AuditLog) (id : Uuid) (hours : Int) : Prop where
  event : a.eventType = .jobCompleted ∨ a.eventType = .jobFailed ∨ a.eventType = .jobCancelled
  job : a.eventData.jobId = some id
  hours : a.eventData.billedGpuHours = some hours

/-- What a completion does: the job `id` comes to its end, its owner `uid` pays for it, and
the audit row `a` is added. -/
structure Bill (db db' : Database) (id uid : Uuid) (hours : Int) (a : AuditLog) : Prop where
  job : ∃ cur cur', db.job id = some cur ∧ cur.status.isTerminal = false ∧ cur.userId = uid ∧
    db'.job id = some cur' ∧ cur'.status.isTerminal = true ∧ cur'.userId = uid
  jobs : ∀ id', id' ≠ id → db'.job id' = db.job id'
  users : Charged db db' uid hours
  fresh : db.get (.auditLog a.id) = none
  logged : db'.get (.auditLog a.id) = some (.auditLog a)
  log : ∀ k, k ≠ a.id → db'.get (.auditLog k) = db.get (.auditLog k)
  bills : Bills a id hours

/-- What a completion in flight counts on: jobs keep their owners, no account appears, and
an empty balance stays empty. -/
def Steady (a b : Database) : Prop :=
  (∀ id j, a.job id = some j → ∃ j', b.job id = some j' ∧ j'.userId = j.userId) ∧
  ∀ x, (a.user x = none → b.user x = none) ∧
    ∀ u, a.user x = some u → u.creditsGpuHours = 0 →
      ∃ u', b.user x = some u' ∧ u'.creditsGpuHours = 0

def billing (app : App) : Spec Row Key Cond Request ApiError Response :=
  platform app (fun _ _ a b => Steady a b) True

variable {app : App} {db db' : Database} {req : Request} {tx : Transaction}

/-- **A bill is steady.** -/
theorem Bill.steady {id uid : Uuid} {hours : Int} {a : AuditLog} (h : Bill db db' id uid hours a)
    (hhours : 1 ≤ hours) : Steady db db' := by
  refine ⟨fun id' j hj => ?_, fun x => ⟨fun hx => ?_, fun u hu hzero => ?_⟩⟩
  · by_cases hid : id' = id
    · subst hid
      obtain ⟨cur, cur', hcur, -, howner, hcur', -, howner'⟩ := h.job
      rw [hj, Option.some.injEq] at hcur
      exact ⟨cur', hcur', by rw [howner', hcur, howner]⟩
    · exact ⟨j, by rw [h.jobs id' hid, hj], rfl⟩
  · have hmap := h.users x
    rw [hx] at hmap
    simpa using hmap
  · have hmap := h.users x
    rw [hu] at hmap
    simp only [Option.map_some, hzero] at hmap
    have hzero' : (db'.user x).map User.creditsGpuHours = some 0 := by
      rw [hmap]
      split
      · rw [max_eq_left (by omega)]
      · rfl
    exact Option.map_eq_some_iff.1 hzero'

/-! ## The shape of a completion -/

theorem user_of_found {uid : Uuid} (h : (billing app).Since req tx db)
    (hf : tx.Found (.user uid)) : ∃ u, db.user uid = some u := by
  obtain ⟨r, hr⟩ := h.exists_of_found hf
  obtain ⟨u, rfl, -⟩ := Row.eq_user_of_key (Db.key_of_get hr)
  exact ⟨u, Db.get_user_iff.1 hr⟩

/-- An account a completion did not find has not appeared since. -/
theorem user_of_missed (h : (billing app).Since req tx db) {uid : Uuid}
    (hmiss : tx.Missed (.byKey (.user uid))) : db.user uid = none := by
  obtain ⟨e, he, -, hno⟩ := hmiss
  refine h.keeps he (I := fun d => d.user uid = none) (fun tx' a b _ hab ha => (hab.2 uid).1 ha) ?_
  cases hu : e.db.user uid with
  | none => rfl
  | some u =>
    have hh := hno _ _ (Db.get_user_iff.2 hu)
    simp [Cond.holds, Row.key, Db.id_of_user hu] at hh

/-- A balance that was empty when it was read is empty. -/
theorem credits_of_read_zero (h : (billing app).Since req tx db) {uid : Uuid} {u : User}
    (hread : tx.Read (.byKey (.user uid)) (.user u)) (hzero : u.creditsGpuHours = 0) :
    ∃ u', db.user uid = some u' ∧ u'.creditsGpuHours = 0 := by
  have hid := id_of_read_user hread
  obtain ⟨e, he, -, hget, -⟩ := hread
  refine h.keeps he (I := fun d => ∃ u', d.user uid = some u' ∧ u'.creditsGpuHours = 0)
    (fun tx' a b _ hab ha => ?_) ⟨u, Db.get_user_iff.1 (hid ▸ hget), hzero⟩
  obtain ⟨u', hu', hz⟩ := ha
  exact (hab.2 uid).2 u' hu' hz

/-- A bill that leaves the account as it is finds it empty. -/
theorem credits_of_billed_eq {u : User} {hours : Int} (hhours : 1 ≤ hours)
    (he : u.billed hours = u) : u.creditsGpuHours = 0 := by
  have hc : max 0 (u.creditsGpuHours - hours) = u.creditsGpuHours :=
    congrArg User.creditsGpuHours he
  omega

/-- **The balances after a completion.** -/
theorem charged_of_owner (h : (billing app).Since req tx db) {uid : Uuid} {hours : Int}
    (hhours : 1 ≤ hours) {owner : Option User} (howner : Owner tx hours uid owner)
    (hview : ∀ x, (tx.view db).get (.user x) =
      (billWrites hours owner).foldl (fun o w => w.on (.user x) o) (db.get (.user x)))
    (hcur : ∀ w ∈ billWrites hours owner, upToDate db w = true) :
    Charged db (tx.view db) uid hours := by
  intro x
  cases owner with
  | none =>
    have hnone := user_of_missed h howner
    have hx : (tx.view db).user x = db.user x := Db.user_congr (hview x)
    rw [hx]
    by_cases hxu : x = uid
    · subst hxu; rw [hnone]; simp
    · rw [if_neg hxu]
  | some u =>
    obtain ⟨hread, hflush⟩ := howner
    have hid := id_of_read_user hread
    subst hid
    by_cases he : u.billed hours = u
    · -- nothing is flushed, and nothing is there to be charged
      have hx : (tx.view db).user x = db.user x := Db.user_congr (by
        rw [hview x, billWrites, flushed, he, if_pos rfl]; rfl)
      rw [hx]
      by_cases hxu : x = u.id
      · subst hxu
        obtain ⟨u', hu', hzero⟩ := credits_of_read_zero h hread (credits_of_billed_eq hhours he)
        rw [hu', if_pos rfl, Option.map_some, Option.map_some, hzero, max_eq_left (by omega)]
      · rw [if_neg hxu]
    · have hne : Row.user (u.billed hours) ≠ .user u := fun hr => he (Row.user.inj hr)
      have hw : billWrites hours (some u) = [.update (.user u) (.user (u.billed hours))] := by
        rw [billWrites, flushed, if_neg hne]
      rw [hw] at hview hcur
      obtain ⟨cur, hcu⟩ := user_of_found h (hflush.resolve_left hne)
      have hx : (tx.view db).user x =
          if u.id = x then (db.user x).map (u.merge (u.billed hours)) else db.user x := by
        apply Db.user_of_get
        rw [hview x, List.foldl_cons, List.foldl_nil, Write.on, Db.get_user db x]
        by_cases hux : u.id = x
        · subst hux
          rw [hcu]; simp [Row.key, Row.merge]
        · simp [Row.key, hux]
      rw [hx]
      by_cases hxu : x = u.id
      · subst hxu
        rw [if_pos rfl, if_pos rfl, hcu]
        have hcheck := hcur _ (List.mem_singleton_self _)
        simp only [upToDate, hcu, Option.all_some, Bool.or_eq_true, Bool.and_eq_true,
          decide_eq_true_eq] at hcheck
        have hcredits : (u.merge (u.billed hours) cur).creditsGpuHours =
            max 0 (u.creditsGpuHours - hours) := by
          refine col_of_ne (fun hc => he ?_) _
          unfold User.billed at hc ⊢
          simp only at hc
          rw [hc]
        have hnew : (u.billed hours).creditsGpuHours = max 0 (u.creditsGpuHours - hours) := rfl
        simp only [Option.map_some, Option.some.injEq]
        rw [hcredits]
        omega
      · rw [if_neg (Ne.symm hxu), if_neg hxu]

/-- The audit log after a completion. -/
theorem view_auditLog {old new : Job} {hours : Int} {owner : Option User} {a : AuditLog}
    (hw : tx.writes = .update (.job old) (.job new) ::
      (billWrites hours owner ++ [.insert (.auditLog a)])) (k : Uuid) :
    (tx.view db).get (.auditLog k) = if a.id = k then (db.get (.auditLog k)).or
      (some (.auditLog a)) else db.get (.auditLog k) := by
  have hbill : ∀ w ∈ billWrites hours owner, w.target ≠ .auditLog k := by
    intro w hm
    obtain ⟨uid, hu⟩ := target_of_mem_billWrites hm
    rw [hu]; simp
  rw [Tx.view, get_applyAll, hw, List.foldl_cons, List.foldl_append,
    Write.on_of_ne (by simp [Write.target, Row.key]), foldl_on_of_ne hbill]
  simp [Write.on, Row.key]

/-- A job still has the owner it was read with. -/
theorem owner_of_read (h : (billing app).Since req tx db) {id : Uuid} {old cur : Job}
    (hread : tx.Read (.byKey (.job id)) (.job old)) (hcur : db.job id = some cur) :
    cur.userId = old.userId := by
  have hid := id_of_read_job hread
  obtain ⟨e, he, -, hget, -⟩ := hread
  have hkept : ∃ j, db.job id = some j ∧ j.userId = old.userId :=
    h.keeps he (I := fun d => ∃ j, d.job id = some j ∧ j.userId = old.userId)
      (fun tx' a b _ hab ha => by
        obtain ⟨j, hj, ho⟩ := ha
        obtain ⟨j', hj', ho'⟩ := hab.1 id j hj
        exact ⟨j', hj', ho'.trans ho⟩)
      ⟨old, Db.get_job_iff.1 (hid ▸ hget), rfl⟩
  obtain ⟨j, hj, ho⟩ := hkept
  rw [hcur, Option.some.injEq] at hj
  rw [hj, ho]

/-- The audit row of a completion bills the job. -/
theorem bills_of_completed {a : AuditLog} {j : Job} {exitCode : Int} {userId : Option Uuid}
    {data : EventData} {hours : Int}
    (h : Logs tx a (terminalEvent (completionTarget j exitCode)) userId data)
    (hjob : data.jobId = some j.id) (hhours : data.billedGpuHours = some hours) :
    Bills a j.id hours := by
  refine ⟨?_, by rw [h.data, hjob], by rw [h.data, hhours]⟩
  rw [h.event]
  rcases completionTarget_cases j exitCode with ht | ht | ht
  · rw [ht]; exact Or.inr (Or.inr rfl)
  · rw [ht]; exact Or.inl rfl
  · rw [ht]; exact Or.inr (Or.inl rfl)

/-- **What a completion commits.** -/
theorem bill_of_committing (h : (billing app).Committing db req tx) (hreq : IsCompletion req)
    (hcur : UpToDate db tx) :
    ∃ id uid hours a, 1 ≤ hours ∧ Bill db (tx.view db) id uid hours a := by
  obtain ⟨bearer, jobId, p, rfl⟩ := hreq
  obtain ⟨n, old, completedAt, now, owner, hours, a, hn, hread, hassign, hallowed, hhours, howner,
    hfound, hw, hlogs⟩ := shape_of_completeJob h.shape
  have hid := id_of_read_job hread
  have hpos : 1 ≤ hours := by rw [hhours]; exact one_le_billGpuHours _ _ _
  have hjob : ∀ x, (tx.view db).job x = if old.id = x then (db.job x).map (old.merge _)
      else db.job x := job_view_update hw target_of_mem_bill
  obtain ⟨cur, hc⟩ := job_of_found h.toSince hfound
  rw [hid] at hc
  have hopen : cur.status.isTerminal = false := by
    have hcheck := hcur _ (by rw [hw]; exact List.mem_cons_self ..)
    simpa [upToDate, hid, hc] using hcheck
  refine ⟨jobId, old.userId, hours, a, hpos, ?_, ?_, ?_, ?_, ?_, ?_, ?_⟩
  · have hafter := hjob jobId
    rw [if_pos hid, hc, Option.map_some] at hafter
    have hsame := owner_of_read h.toSince hread hc
    refine ⟨cur, _, hc, hopen, hsame, hafter, ?_, hsame⟩
    rw [status_merge_terminated (ne_of_allowed hallowed)]
    exact isTerminal_completionTarget _ _
  · intro id' hne
    rw [hjob id', if_neg (by rw [hid]; exact Ne.symm hne)]
  · refine charged_of_owner h.toSince hpos howner (fun x => ?_) (fun w hm => ?_)
    · have hlast : ∀ w ∈ [Write.insert (Row.auditLog a)], w.target ≠ .user x := by
        simp [Write.target, Row.key]
      rw [Tx.view, get_applyAll, hw, List.foldl_cons, List.foldl_append,
        Write.on_of_ne (by simp [Write.target, Row.key]), foldl_on_of_ne hlast]
    · exact hcur w (by rw [hw]; exact List.mem_cons_of_mem _ (List.mem_append_left _ hm))
  · exact h.get_of_fresh hlogs.fresh
  · rw [view_auditLog hw, if_pos rfl, h.get_of_fresh hlogs.fresh]
    rfl
  · intro k hk
    rw [view_auditLog hw, if_neg (Ne.symm hk)]
  · exact hid ▸ bills_of_completed hlogs rfl rfl

/-! ## The books -/

/-- The audit row has been committed since `db₀`. -/
def LoggedSince (db₀ db : Database) (a : AuditLog) : Prop :=
  db.get (.auditLog a.id) = some (.auditLog a) ∧ db₀.get (.auditLog a.id) = none

/-- The audit row carries a bill for the job. -/
def AuditLog.carries (a : AuditLog) (id : Uuid) : Prop :=
  a.eventData.jobId = some id ∧ a.eventData.billedGpuHours.isSome = true

/-- The balance after the bills of some jobs, one after the other. -/
def chargeAll (hours : Uuid → Int) (order : List Uuid) (credits : Int) : Int :=
  order.foldl (fun c id => max 0 (c - hours id)) credits

/-- The job `id` belongs to the account `x`. -/
def ownedBy (db : Database) (x id : Uuid) : Bool := decide ((db.job id).map Job.userId = some x)

/-- The jobs `order` have come to their end since `db₀`, in this order, each was billed
with its `hours`, and nothing else has been billed. -/
structure Books (db₀ db : Database) (order : List Uuid) (hours : Uuid → Int) : Prop where
  nodup : order.Nodup
  jobs : ∀ id, id ∉ order → db.job id = db₀.job id
  closed : ∀ id ∈ order, ∃ j₀ j, db₀.job id = some j₀ ∧ j₀.status.isTerminal = false ∧
    db.job id = some j ∧ j.status.isTerminal = true
  billed : ∀ id ∈ order, ∃ a, LoggedSince db₀ db a ∧ Bills a id (hours id) ∧
    ∀ a', LoggedSince db₀ db a' → a'.carries id → a' = a
  stray : ∀ id a, LoggedSince db₀ db a → a.carries id → id ∈ order
  log : ∀ k, db.get (.auditLog k) = none → db₀.get (.auditLog k) = none
  users : ∀ x, (db.user x).map User.creditsGpuHours = (db₀.user x).map fun u =>
    chargeAll hours (order.filter (ownedBy db₀ x)) u.creditsGpuHours

theorem books_init (db : Database) : Books db db [] (fun _ => 0) where
  nodup := List.nodup_nil
  jobs := fun _ _ => rfl
  closed := fun _ h => absurd h List.not_mem_nil
  billed := fun _ h => absurd h List.not_mem_nil
  stray := fun _ a h => by
    have hsome := h.1
    rw [h.2] at hsome
    cases hsome
  log := fun _ h => h
  users := fun x => by cases db.user x <;> rfl

theorem chargeAll_congr {hours hours' : Uuid → Int} {order : List Uuid}
    (h : ∀ id ∈ order, hours id = hours' id) (c : Int) :
    chargeAll hours order c = chargeAll hours' order c := by
  induction order generalizing c with
  | nil => rfl
  | cons id order ih =>
    rw [chargeAll, List.foldl_cons, h id (List.mem_cons_self ..)]
    exact ih (fun x hx => h x (List.mem_cons_of_mem _ hx)) _

theorem chargeAll_concat (hours : Uuid → Int) (order : List Uuid) (id : Uuid) (c : Int) :
    chargeAll hours (order ++ [id]) c = max 0 (chargeAll hours order c - hours id) := by
  rw [chargeAll, List.foldl_append]
  rfl

/-- An audit row of the new store was there before, or is the bill. -/
theorem Bill.logged_cases {id uid : Uuid} {hours : Int} {a : AuditLog}
    (h : Bill db db' id uid hours a) {db₀ : Database} {a' : AuditLog}
    (ha' : LoggedSince db₀ db' a') : LoggedSince db₀ db a' ∨ a' = a := by
  by_cases hid : a'.id = a.id
  · right
    have hl := ha'.1
    rw [hid, h.logged, Option.some.injEq] at hl
    exact (Row.auditLog.inj hl).symm
  · left
    exact ⟨by rw [← h.log _ hid]; exact ha'.1, ha'.2⟩

section

variable {db₀ : Database} {order : List Uuid} {hours : Uuid → Int} {id uid : Uuid} {n : Int}
  {a : AuditLog}

/-- What was logged before a bill is logged, and the bill is a row of its own. -/
theorem Bill.loggedSince (h : Bill db db' id uid n a) {a' : AuditLog}
    (ha' : LoggedSince db₀ db a') : LoggedSince db₀ db' a' := by
  have hne : a'.id ≠ a.id := by
    intro he
    have hfresh := h.fresh
    rw [← he, ha'.1] at hfresh
    cases hfresh
  exact ⟨by rw [h.log _ hne]; exact ha'.1, ha'.2⟩

/-- The job of a bill has not been billed yet. -/
theorem Books.not_mem (hb : Books db₀ db order hours) (h : Bill db db' id uid n a) :
    id ∉ order := by
  intro hmem
  obtain ⟨cur, -, hcur, hopen, -⟩ := h.job
  obtain ⟨j₀, j, -, -, hj, hterm⟩ := hb.closed id hmem
  rw [hcur, Option.some.injEq] at hj
  rw [← hj, hopen] at hterm
  cases hterm

theorem Books.hours_keep (hb : Books db₀ db order hours) (h : Bill db db' id uid n a) {x : Uuid}
    (hx : x ∈ order) : Function.update hours id n x = hours x := by
  have hne : x ≠ id := fun he => hb.not_mem h (he ▸ hx)
  exact Function.update_of_ne hne _ _

/-- The job of the bill has come to its end, as those before. -/
theorem Books.closed_bill (hb : Books db₀ db order hours) (h : Bill db db' id uid n a) {x : Uuid}
    (hx : x ∈ order ++ [id]) : ∃ j₀ j, db₀.job x = some j₀ ∧ j₀.status.isTerminal = false ∧
      db'.job x = some j ∧ j.status.isTerminal = true := by
  have hnew := hb.not_mem h
  rcases List.mem_append.1 hx with hx | hx
  · have hne : x ≠ id := fun he => hnew (he ▸ hx)
    obtain ⟨j₀, j, hj₀, ho, hj, ht⟩ := hb.closed x hx
    exact ⟨j₀, j, hj₀, ho, by rw [h.jobs x hne]; exact hj, ht⟩
  · rw [List.mem_singleton] at hx
    subst hx
    obtain ⟨cur, cur', hcur, hopen, -, hcur', hterm, -⟩ := h.job
    exact ⟨cur, cur', by rw [← hb.jobs x hnew, hcur], hopen, hcur', hterm⟩

/-- The bill is the only one for its job, and those before stay so. -/
theorem Books.billed_bill (hb : Books db₀ db order hours) (h : Bill db db' id uid n a) {x : Uuid}
    (hx : x ∈ order ++ [id]) : ∃ b, LoggedSince db₀ db' b ∧
      Bills b x (Function.update hours id n x) ∧
      ∀ a', LoggedSince db₀ db' a' → a'.carries x → a' = b := by
  have hnew := hb.not_mem h
  rcases List.mem_append.1 hx with hx | hx
  · obtain ⟨b, hlogged, hbills, huniq⟩ := hb.billed x hx
    refine ⟨b, h.loggedSince hlogged, by rw [hb.hours_keep h hx]; exact hbills,
      fun a' ha' hc => ?_⟩
    rcases h.logged_cases ha' with ha' | rfl
    · exact huniq a' ha' hc
    · -- the new bill is for another job
      have hx' := hc.1
      rw [h.bills.job, Option.some.injEq] at hx'
      exact absurd hx (hx' ▸ hnew)
  · rw [List.mem_singleton] at hx
    subst hx
    refine ⟨a, ⟨h.logged, hb.log _ h.fresh⟩, by rw [Function.update_self]; exact h.bills,
      fun a' ha' hc => ?_⟩
    rcases h.logged_cases ha' with ha' | he
    · exact absurd (hb.stray x a' ha' hc) hnew
    · exact he

/-- **The bill is taken from the balance of its account**, behind those before. -/
theorem Books.users_bill (hb : Books db₀ db order hours) (h : Bill db db' id uid n a) (x : Uuid) :
    (db'.user x).map User.creditsGpuHours = (db₀.user x).map fun u =>
      chargeAll (Function.update hours id n) ((order ++ [id]).filter (ownedBy db₀ x))
        u.creditsGpuHours := by
  have hbefore := hb.users x
  have hfilter : ∀ c, chargeAll (Function.update hours id n) (order.filter (ownedBy db₀ x)) c =
      chargeAll hours (order.filter (ownedBy db₀ x)) c :=
    chargeAll_congr fun y hy => hb.hours_keep h (List.mem_filter.1 hy).1
  have hown : ownedBy db₀ x id = decide (uid = x) := by
    obtain ⟨cur, -, hcur, -, howner, -⟩ := h.job
    simp [ownedBy, ← hb.jobs id (hb.not_mem h), hcur, howner]
  rw [h.users x, List.filter_append, List.filter_singleton, hown]
  by_cases hx : x = uid
  · subst hx
    rw [if_pos rfl, decide_eq_true rfl]
    simp only [cond_true, chargeAll_concat, hfilter, Function.update_self]
    generalize db.user x = o at hbefore
    generalize db₀.user x = o₀ at hbefore
    cases o with
    | none =>
      cases o₀ with
      | none => rfl
      | some u₀ => cases hbefore
    | some u =>
      cases o₀ with
      | none => cases hbefore
      | some u₀ =>
        simp only [Option.map_some, Option.some.injEq] at hbefore ⊢
        rw [hbefore]
  · rw [if_neg hx, decide_eq_false (Ne.symm hx)]
    simp only [cond_false, List.append_nil, hfilter]
    exact hbefore

/-- **A bill keeps the books.** -/
theorem Books.bill (hb : Books db₀ db order hours) (h : Bill db db' id uid n a) :
    Books db₀ db' (order ++ [id]) (Function.update hours id n) where
  nodup := by
    refine List.nodup_append.2 ⟨hb.nodup, List.nodup_singleton _, ?_⟩
    rintro x hx y hy rfl
    exact hb.not_mem h (List.mem_singleton.1 hy ▸ hx)
  jobs x hx := by
    rw [List.mem_append, List.mem_singleton, not_or] at hx
    rw [h.jobs x hx.2, hb.jobs x hx.1]
  closed _ hx := hb.closed_bill h hx
  billed _ hx := hb.billed_bill h hx
  stray x a' ha' hc := by
    rcases h.logged_cases ha' with ha' | rfl
    · exact List.mem_append_left _ (hb.stray x a' ha' hc)
    · have hx := hc.1
      rw [h.bills.job, Option.some.injEq] at hx
      exact List.mem_append_right _ (List.mem_singleton.2 hx.symm)
  log k hk := by
    by_cases hka : k = a.id
    · rw [hka]
      exact hb.log _ h.fresh
    · exact hb.log k (by rw [← h.log k hka]; exact hk)
  users := hb.users_bill h

end

/-! ## Runs -/

/-- A job that was still open in `db₀` has come to its end. -/
def Finished (db₀ db : Database) (id : Uuid) : Prop :=
  ∃ j₀ j, db₀.job id = some j₀ ∧ j₀.status.isTerminal = false ∧ db.job id = some j ∧
    j.status.isTerminal = true

/-- Each job that has come to its end has one audit row with a bill, and the balance of
every account is what these bills leave of it, taken one after the other in some order. -/
def BilledOnce (db₀ db : Database) : Prop :=
  ∃ (order : List Uuid) (hours : Uuid → Int), order.Nodup ∧
    (∀ id, id ∈ order ↔ Finished db₀ db id) ∧
    (∀ id ∈ order, ∃ a, LoggedSince db₀ db a ∧ Bills a id (hours id) ∧
      ∀ a', LoggedSince db₀ db a' → a'.carries id → a' = a) ∧
    ∀ x u₀, db₀.user x = some u₀ → ∃ u, db.user x = some u ∧
      u.creditsGpuHours = chargeAll hours (order.filter (ownedBy db₀ x)) u₀.creditsGpuHours

theorem Books.billedOnce {db₀ : Database} {order : List Uuid} {hours : Uuid → Int}
    (hb : Books db₀ db order hours) : BilledOnce db₀ db := by
  refine ⟨order, hours, hb.nodup, fun id => ⟨hb.closed id, ?_⟩, hb.billed, fun x u₀ hu₀ => ?_⟩
  · rintro ⟨j₀, j, hj₀, hopen, hj, hterm⟩
    by_contra hmem
    rw [hb.jobs id hmem, hj₀, Option.some.injEq] at hj
    rw [← hj, hopen] at hterm
    cases hterm
  · have hmap := hb.users x
    rw [hu₀, Option.map_some] at hmap
    exact Option.map_eq_some_iff.1 hmap

/-- **Every job is billed exactly once**, in every run of completions in which each commits
on what it has read. -/
theorem jobs_billed_once (app : App) (db : Database) (clock : Time) {s : System}
    (h : Reach (controlPlane app) OrderlyCompletions (idle db clock) s) : BilledOnce db s.db := by
  have hbill : ∀ s l s' i th, (OrderlyCompletions s l s' ∧ ∀ (i : Nat) (th : Pending),
      s.threads[i]? = some th → IsCompletion th.req) → Commits s l i th →
      (billing app).Committing s.db th.req th.ses.tx →
      ∃ id uid hours a, 1 ≤ hours ∧ Bill s.db (th.ses.tx.view s.db) id uid hours a :=
    fun s l s' i th ht hc hcom =>
      bill_of_committing hcom (ht.2 i th hc.1) (ht.1.2 i th hc)
  have hbooks : ∃ order hours, Books db s.db order hours := by
    refine invariant (P := billing app) (platform_valid app _ _)
      (fun s l s' hs ht hok => ⟨fun _ => trivial, fun i th hc hcom j tj _ _ _ => ?_⟩)
      (fun d => ∃ order hours, Books db d order hours)
      (fun s l s' i th ht hc hcom hI => ?_) (ok_of_no_threads rfl)
      ⟨[], fun _ => 0, books_init db⟩ (h.admitted (fun s l s' ht => ht.1) rfl).1
    · obtain ⟨id, uid, hours, a, hpos, hbl⟩ := hbill s l s' i th ht hc hcom
      rw [db_of_commits hc hs]
      exact hbl.steady hpos
    · obtain ⟨order, hours, hb⟩ := hI
      obtain ⟨id, uid, n, a, -, hbl⟩ := hbill s l s' i th ht hc hcom
      exact ⟨_, _, hb.bill hbl⟩
  obtain ⟨order, hours, hb⟩ := hbooks
  exact hb.billedOnce

/-- `sampleJob` on its node. -/
def runningJob : Job := sampleJob.claimedBy sampleNode.id 0

/-- An account with one job that runs, and the node it runs on. -/
def runningDb : Database :=
  ((Db.empty.insert (.user sampleUser)).insert (.node sampleNode)).insert (.job runningJob)

/-- The agent reports the job twice, the second time after the first is answered. -/
def completedRun : List (Label Request) :=
  .spawn (.completeJob (some sampleAgentToken) 3 exitZero) :: runs 0 12 ++
    .spawn (.completeJob (some sampleAgentToken) 3 exitZero) :: runs 1 2

theorem jobs_billed_once_at_completedRun :
    ∃ s, Reach (controlPlane plainApp) OrderlyCompletions (idle runningDb 0) s ∧
      (s.db.user 1).map User.creditsGpuHours = some 9 ∧ BilledOnce runningDb s.db := by
  obtain ⟨s, hs, hcredits⟩ := Option.bind_eq_some_iff.1 (show
    (runChecked (controlPlane plainApp) (fun s _ th => decide (UpToDate s.db th.ses.tx))
      (idle runningDb 0) completedRun).bind
        (fun s => (s.db.user 1).map User.creditsGpuHours) = some 9 by decide +kernel)
  have hr : Reach (controlPlane plainApp) OrderlyCompletions (idle runningDb 0) s := by
    refine (Reach.of_runChecked hs).mono fun _ l _ ht => ⟨fun req hl => ?_, ht.1⟩
    have hmem := ht.2
    simp only [hl, completedRun, runs, List.mem_append, List.mem_cons, List.mem_replicate,
      Label.spawn.injEq, reduceCtorEq, and_false, or_false] at hmem
    rcases hmem with rfl | rfl
    · exact ⟨_, _, _, rfl⟩
    · exact ⟨_, _, _, rfl⟩
  exact ⟨s, hr, hcredits, jobs_billed_once plainApp runningDb 0 hr⟩

/-- The agent's second report is sent before the first is answered, and both read the job
while it runs. -/
def doubleRun : List (Label Request) :=
  .spawn (.completeJob (some sampleAgentToken) 3 exitZero) :: runs 0 5 ++
    .spawn (.completeJob (some sampleAgentToken) 3 exitZero) :: runs 1 5 ++ runs 0 6 ++ runs 1 6

/-- **A job can be billed twice.** -/
theorem job_billed_twice :
    ¬ ∀ s, Reach (controlPlane plainApp) (Admits IsCompletion) (idle runningDb 0) s →
      BilledOnce runningDb s.db := by
  intro h
  obtain ⟨s, hs, hrows⟩ := Option.bind_eq_some_iff.1 (show
    (runChecked (controlPlane plainApp) (fun _ _ _ => decide True) (idle runningDb 0)
      doubleRun).bind (fun s => (s.db.auditLog 0).bind fun a => (s.db.auditLog 1).bind fun b =>
        (s.db.job 3).map fun j => (a.eventData.jobId, a.eventData.billedGpuHours,
          b.eventData.jobId, b.eventData.billedGpuHours, j.status)) =
        some (some 3, some 1, some 3, some 1, .completed) by decide +kernel)
  have hr : Reach (controlPlane plainApp) (Admits IsCompletion) (idle runningDb 0) s := by
    refine (Reach.of_runChecked (C := fun _ _ _ => True) hs).mono fun _ l _ ht req hl => ?_
    have hmem := ht.2
    simp only [hl, doubleRun, runs, List.mem_append, List.mem_cons, List.mem_replicate,
      Label.spawn.injEq, reduceCtorEq, and_false, or_false] at hmem
    rcases hmem with rfl | rfl
    · exact ⟨_, _, _, rfl⟩
    · exact ⟨_, _, _, rfl⟩
  obtain ⟨a, ha, hrows⟩ := Option.bind_eq_some_iff.1 hrows
  obtain ⟨b, hb, hrows⟩ := Option.bind_eq_some_iff.1 hrows
  obtain ⟨j, hj, hfields⟩ := Option.map_eq_some_iff.1 hrows
  simp only [Prod.mk.injEq] at hfields
  obtain ⟨haj, hah, hbj, hbh, hstatus⟩ := hfields
  have hid := Db.id_of_auditLog ha
  have hid' := Db.id_of_auditLog hb
  obtain ⟨order, hours, -, hfin, hbills, -⟩ := h s hr
  have hmem : 3 ∈ order := (hfin 3).2
    ⟨runningJob, j, by decide +kernel, rfl, hj, by rw [hstatus]; rfl⟩
  obtain ⟨x, -, -, huniq⟩ := hbills 3 hmem
  have hax := huniq a ⟨by rw [hid]; exact Db.get_auditLog_iff.2 ha, by rw [hid]; decide +kernel⟩
    ⟨haj, by rw [hah]; rfl⟩
  have hbx := huniq b ⟨by rw [hid']; exact Db.get_auditLog_iff.2 hb, by rw [hid']; decide +kernel⟩
    ⟨hbj, by rw [hbh]; rfl⟩
  rw [hax, ← hbx, hid'] at hid
  cases hid

end GpuNetwork
