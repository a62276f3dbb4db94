import GpuNetwork.Agent.Custody
import GpuNetwork.Store.Amid

/-!
# What a daemon aborts

A heartbeat names a job whose cancel is due, and the daemon cancels whatever it runs.  The two
are the same job as long as the job that the store has on the node is the one the daemon runs.

* `Orderly` — no claim or cancel commits after its check has become void, no removed node is
  revived, and no signal reaches a job.
* `Daemon.Sober` — a daemon has aborted only what it was told to.
* `heartbeat_amid` — what a heartbeat can answer.
* `Attentive`, `attentive_of_run` — heartbeats name what the daemon runs.
* `daemons_abort_only_the_cancelled`.
-/

namespace GpuNetwork.Agent

open ReadCommitted ReadCommitted.Spec Machine

/-! ## The daemon -/

/-- Whatever the daemon has aborted, or reported as cancelled, it was told to cancel. -/
structure Daemon.Sober (d : Daemon) : Prop where
  canceled : ∀ (k : Nat) (r : JobRun), d.runs[k]? = some r → r.stage = .running →
    r.ctxErr = some .canceled → r.job.jobId ∈ d.heard
  aborted : ∀ id ∈ d.aborted, id ∈ d.heard
  reported : ∀ id, (id, cancelReport) ∈ d.reports → id ∈ d.heard

/-- The daemon does nothing that ends a job from outside, and no error of `os/exec` reads like
a cancel. -/
def Daemon.Calm (d : Daemon) : DaemonAct → Prop
  | .signal => ∀ r ∈ d.runs, r.isLive = false
  | .starts _ => d.signalled = false
  | .runnerEnds _ e => e.bare ≠ some cancelledMessage
  | _ => True

section Daemons

variable {d d' : Daemon}

theorem canceled_eq {r : JobRun} (h : r.isLive = false) : r.canceled = r := by
  unfold JobRun.canceled
  rw [if_neg (by simp [h])]

/-- A daemon that has only turned, or lost a claim, is as sober as before. -/
theorem Daemon.Sober.congr (h : d.Sober) (hruns : d'.runs = d.runs) (hheard : d'.heard = d.heard)
    (haborted : d'.aborted = d.aborted) (hreports : d'.reports = d.reports) : d'.Sober := by
  refine ⟨?_, ?_, ?_⟩
  · rw [hruns, hheard]
    exact h.canceled
  · rw [haborted, hheard]
    exact h.aborted
  · rw [hreports, hheard]
    exact h.reported

/-- One goroutine changes. -/
theorem Daemon.Sober.set (h : d.Sober) {k : Nat} {r : JobRun}
    (hr : r.stage = .running → r.ctxErr = some .canceled → r.job.jobId ∈ d.heard)
    (hruns : d'.runs = d.runs.set k r) (hheard : ∀ id ∈ d.heard, id ∈ d'.heard)
    (haborted : ∀ id ∈ d'.aborted, id ∈ d'.heard)
    (hreports : ∀ id, (id, cancelReport) ∈ d'.reports → id ∈ d'.heard) : d'.Sober := by
  refine ⟨fun j x hj hstage hctx => ?_, haborted, hreports⟩
  rw [hruns] at hj
  rcases getElem?_set_cases hj with ⟨-, rfl⟩ | ⟨-, hj⟩
  · exact hheard _ (hr hstage hctx)
  · exact hheard _ (h.canceled j x hj hstage hctx)

theorem sober_enter (h : d.Sober) {k : Nat} {r : JobRun} {stage : Stage}
    (hstage : stage ≠ .running) : (d.enter k r stage).Sober :=
  h.set (k := k) (fun hr => absurd hr hstage) rfl (fun _ => id) h.aborted h.reported

theorem sober_launch (h : d.Sober) (job : JobAssignment) (claim : Nat) :
    (d.launch job claim).Sober := by
  refine ⟨fun k r hk hstage hctx => ?_, h.aborted, h.reported⟩
  rcases getElem?_concat_cases hk with hk | ⟨-, rfl⟩
  · exact h.canceled k r hk hstage hctx
  · cases hstage

theorem sober_cancel (h : d.Sober) {k : Nat}
    (hk : ∀ r, d.runs[k]? = some r → r.isLive = true → r.job.jobId ∈ d.heard) :
    (d.cancel k).Sober := by
  unfold Daemon.cancel
  cases hr : d.runs[k]? with
  | none => exact h
  | some r =>
    by_cases hlive : r.isLive = true
    · have hmem := hk r hr hlive
      have hjob : r.canceled.job = r.job := JobRun.onward_canceled.job
      refine h.set (fun _ _ => hjob ▸ hmem) rfl (fun _ => id) (fun id hid => ?_) h.reported
      simp only [hlive, if_true, List.mem_append, List.mem_singleton] at hid
      rcases hid with hid | rfl
      · exact h.aborted id hid
      · exact hmem
    · simp only [canceled_eq (Bool.not_eq_true _ ▸ hlive), hlive]
      exact h.set (h.canceled k r hr) rfl (fun _ => id) h.aborted h.reported

/-- **A daemon cancels what it is told to**, if that is what it runs. -/
theorem sober_afterHeartbeat (h : d.Sober) {c : Option Uuid}
    (hname : ∀ id, c = some id → ∀ (k : Nat) (r : JobRun), d.runs[k]? = some r →
      r.isLive = true → r.job.jobId = id) : (d.afterHeartbeat c).Sober := by
  have hheard : Daemon.Sober { d with heard := d.heard ++ c.toList } :=
    ⟨fun k r hk hs hc => List.mem_append_left _ (h.canceled k r hk hs hc),
      fun id hid => List.mem_append_left _ (h.aborted id hid),
      fun id hid => List.mem_append_left _ (h.reported id hid)⟩
  unfold Daemon.afterHeartbeat
  dsimp only
  split
  · split
    · rename_i id k hcancel
      have hcancelled := sober_cancel hheard fun r hr hlive => by
        rw [hname id rfl k r hr hlive]
        simp
      exact hcancelled.congr rfl rfl rfl rfl
    · exact hheard.congr rfl rfl rfl rfl
  · exact hheard.congr rfl rfl rfl rfl

theorem sober_act (h : d.Sober) {a : DaemonAct} (hcalm : d.Calm a) (ha : d.act a = some d') :
    d'.Sober := by
  cases a with
  | tick =>
    simp only [Daemon.act] at ha
    split at ha <;> cases ha
    exact h.congr rfl rfl rfl rfl
  | callFails =>
    simp only [Daemon.act] at ha
    split at ha <;> cases ha
    · exact h.congr rfl rfl rfl rfl
    · exact h.congr rfl rfl rfl rfl
  | starts k =>
    have hquiet : d.signalled = false := hcalm
    simp only [Daemon.act] at ha
    split at ha
    · rename_i r hk
      split at ha <;> cases ha
      simp only [hquiet, Bool.false_eq_true, if_false]
      exact h.set (k := k) (fun _ hctx => by cases hctx) rfl (fun _ => id) h.aborted h.reported
    · cases ha
  | deadline k =>
    simp only [Daemon.act] at ha
    split at ha
    · rename_i r hk
      split at ha <;> cases ha
      exact h.set (k := k) (fun _ hctx => by cases hctx) rfl (fun _ => id) h.aborted h.reported
    · cases ha
  | runnerEnds k e =>
    simp only [Daemon.act] at ha
    split at ha
    · rename_i r hk
      split at ha <;> cases ha
      rename_i hstage
      refine h.set (k := k) (fun hs => by cases hs) rfl (fun _ => id) h.aborted fun id hid => ?_
      rcases List.mem_append.1 hid with hid | hid
      · exact h.reported id hid
      · obtain ⟨rfl, hreport⟩ := Prod.mk.inj (List.mem_singleton.1 hid)
        exact h.canceled k r hk hstage (canceled_of_cancelReport hcalm hreport.symm)
    · cases ha
  | completeFails k =>
    simp only [Daemon.act] at ha
    split at ha
    · split at ha <;> cases ha
      exact sober_enter h (by simp)
    · cases ha
  | returns k =>
    simp only [Daemon.act] at ha
    split at ha
    · split at ha <;> cases ha
      exact h.set (k := k) (fun hs => by cases hs) rfl (fun _ => id) h.aborted h.reported
    · cases ha
  | signal =>
    cases ha
    have hsame : d.runs.map JobRun.canceled = d.runs :=
      List.map_congr_left (fun r hr => canceled_eq (hcalm r hr)) |>.trans (List.map_id _)
    have hnone : d.runs.filter JobRun.isLive = [] :=
      List.filter_eq_nil_iff.2 fun r hr => by rw [hcalm r hr]; simp
    refine h.congr hsame rfl ?_ rfl
    rw [hnone]
    exact List.append_nil _
  | exits =>
    cases ha
    refine ⟨fun k r' hk hstage _ => ?_, h.aborted, h.reported⟩
    rw [List.getElem?_map, Option.map_eq_some_iff] at hk
    obtain ⟨r, -, rfl⟩ := hk
    unfold JobRun.ended at hstage
    split at hstage
    · cases hstage
    · rename_i hret
      rw [hret] at hstage
      cases hstage
    · cases hstage
  | boots =>
    simp only [Daemon.act] at ha
    split at ha <;> cases ha
    exact h.congr rfl rfl rfl rfl

end Daemons

/-! ## The heartbeat -/

/-- **What a heartbeat can answer**: a job that runs on its node and whose cancel is due, in
one of the stores that are there in the meantime. -/
theorem heartbeat_amid {app : App} {D : Database → Prop} {bearer : Option Str} {n : Uuid}
    {ses : Conn} {C : Uuid → Prop}
    (hD : ∀ db, D db → ∀ j, db.job j.id = some j → j.runningOn n = true →
      j.cancelRequestedAt.isSome = true → C j.id) :
    (heartbeat app bearer n).Amid D ses fun a _ => ∀ t c, a = .heartbeat t (some c) → C c := by
  unfold heartbeat
  refine amid_bind (amid_of_any fun node s₁ => ?_)
  split
  · trivial
  rename_i hid
  rw [ne_eq, not_not] at hid
  refine amid_bind (amid_of_any fun _ s₂ => amid_bind (amid_commit ?_))
  refine amid_bind (amid_bind (amid_bind (amid_select rfl fun db o s₃ _ ho _ hw₃ => ?_)))
  cases o with
  | none => trivial
  | some row =>
    obtain ⟨-, hkey⟩ := ho row rfl
    obtain ⟨node', rfl, hid'⟩ := Row.eq_node_of_key (of_decide_eq_true hkey)
    refine amid_bind (amid_bind (amid_select hw₃ fun db' o' s₄ hdb' ho' _ _ => ?_))
    have hfound : ∀ j, o' = some (.job j) → j.cancelRequestedAt.isSome = true → C j.id := by
      intro j hj hflag
      obtain ⟨hrow, hrun⟩ := ho' (.job j) hj
      rw [hid', hid] at hrun
      exact hD db' hdb' j (Db.get_job_iff.1 (Db.get_of_mem hrow)) hrun hflag
    cases o' with
    | none =>
      refine amid_bind (amid_now fun t => ?_)
      intro t' c hc
      cases hc
    | some row' =>
      cases row' with
      | job j =>
        refine amid_bind (amid_now fun t => ?_)
        intro t' c hc
        simp only [Option.bind_some, Response.heartbeat.injEq] at hc
        obtain ⟨-, hc⟩ := hc
        split at hc
        · rename_i hflag
          cases hc
          exact hfound j rfl hflag
        · cases hc
      | _ =>
        refine amid_bind (amid_now fun t => ?_)
        intro t' c hc
        cases hc

/-! ## Runs -/

/-- No claim or cancel commits after what it had checked has ceased to hold, and no removed
node is revived; and nothing ends a job from outside. -/
def Orderly (tokens : Uuid → Str) (s : Fleet) : FleetAct → Prop
  | .server l => ∀ i th, Commits s.server l i th → ¬ Occupied s.server.db th.ses.tx ∧
      ¬ Snatched s.server.db th.ses.tx ∧ ¬ Revives tokens s.server th.ses.tx
  | .daemon n a => (s.daemons n).Calm a
  | _ => True

/-- The job is the only one that may run on the node. -/
def OnlyRuns (n id : Uuid) (db : Database) : Prop :=
  ∀ j, db.job j.id = some j → j.runningOn n = true → j.id = id

/-- The cancels that are due are among the given. -/
def DueAmong (C : Uuid → Prop) (db : Database) : Prop := ∀ id, CancelDue db id → C id

/-- What is so in every state of an orderly run. -/
structure Attentive (app : App) (tokens : Uuid → Str) (db : Database) (clock : Time) (s : Fleet) :
    Prop extends Placed app tokens db clock s where
  overseen : Overseen app s.server
  /-- A heartbeat that a daemon waits for names nothing but what the daemon runs. -/
  names : ∀ (n : Uuid) (i k : Nat) (r : JobRun), (s.daemons n).turn = .heartbeat (some i) →
    (s.daemons n).runs[k]? = some r → r.isOpen = true →
    ∃ th : Pending, s.server.threads[i]? = some th ∧
      th.prog.Amid (OnlyRuns n r.job.jobId) th.ses fun a _ => ∀ t c, a = .heartbeat t (some c) →
        c = r.job.jobId
  /-- It names nothing but a job whose cancel has been requested. -/
  marks : ∀ (n : Uuid) (i : Nat), (s.daemons n).turn = .heartbeat (some i) →
    ∃ th : Pending, s.server.threads[i]? = some th ∧
      ∀ C : Uuid → Prop, (∀ id, CancelRequested app s.server id → C id) →
        th.prog.Amid (DueAmong C) th.ses fun a _ => ∀ t c, a = .heartbeat t (some c) → C c
  heard : ∀ n, ∀ id ∈ (s.daemons n).heard, CancelRequested app s.server id
  sober : ∀ n, (s.daemons n).Sober

variable {app : App} {tokens : Uuid → Str} {db : Database} {clock : Time} {s s' : Fleet}
  {m : FleetAct}

theorem turn_act {d d' : Daemon} {a : DaemonAct} (h : d.act a = some d') {i : Nat}
    (hturn : d'.turn = .heartbeat (some i)) : d.turn = .heartbeat (some i) := by
  cases a <;> simp only [Daemon.act] at h <;> (try split at h) <;> (try split at h) <;>
    cases h <;> first | exact hturn | cases hturn

theorem turn_afterHeartbeat (d : Daemon) (c : Option Uuid) (i : Nat) :
    (d.afterHeartbeat c).turn ≠ .heartbeat (some i) := by
  unfold Daemon.afterHeartbeat
  dsimp only
  split
  · split <;> simp
  · dsimp only
    split <;> simp

/-- A heartbeat that a daemon waits for it has waited for, or it has just been sent. -/
theorem turn_cases (h : Happens app tokens s m s') {n : Uuid} {i : Nat}
    (hturn : (s'.daemons n).turn = .heartbeat (some i)) :
    (s.daemons n).turn = .heartbeat (some i) ∨
      s'.server.threads[i]? = some ⟨.heartbeat (some (tokens n)) n,
        heartbeat app (some (tokens n)) n, {}, none⟩ := by
  have hput : ∀ {t : Fleet} {n' : Uuid} {d : Daemon}, t.daemons = s.daemons →
      ((t.put n' d).daemons n).turn = .heartbeat (some i) →
      (n = n' → d.turn = .heartbeat (some i) → (s.daemons n).turn = .heartbeat (some i)) →
      (s.daemons n).turn = .heartbeat (some i) := by
    intro t n' d ht hturn hd
    simp only [Fleet.put, Function.update_apply, ht] at hturn
    split at hturn
    · rename_i hn
      exact hd hn hturn
    · exact hturn
  cases h with
  | server hforeign ht => exact Or.inl hturn
  | daemon ha => exact Or.inl (hput rfl hturn fun hn hd => hn ▸ turn_act ha hd)
  | sendsHeartbeat hold =>
    rename_i n'
    by_cases hn : n = n'
    · subst hn
      simp only [Fleet.put, Function.update_self, Turn.heartbeat.injEq, Option.some.injEq] at hturn
      subst hturn
      exact Or.inr List.getElem?_concat_length
    · exact Or.inl (hput rfl hturn fun he => absurd he hn)
  | sendsClaim hold => exact Or.inl (hput rfl hturn fun _ hd => by cases hd)
  | hears hold hi hprog => exact Or.inl (hput rfl hturn fun _ hd =>
      absurd hd (turn_afterHeartbeat _ _ _))
  | hearsError hold => exact Or.inl (hput rfl hturn fun _ hd => by cases hd)
  | launches hold hi hprog => exact Or.inl (hput rfl hturn fun _ hd => by cases hd)
  | findsNoJob hold hi hprog => exact Or.inl (hput rfl hturn fun _ hd => by cases hd)
  | claimsInVain hold => exact Or.inl (hput rfl hturn fun _ hd => by cases hd)
  | posts hk hstage => exact Or.inl (hput rfl hturn fun hn hd => hn ▸ hd)
  | isRejected hk hstage => exact Or.inl (hput rfl hturn fun hn hd => hn ▸ hd)
  | isAccepted hk hstage hi hprog => exact Or.inl (hput rfl hturn fun hn hd => hn ▸ hd)
  | isRefused hk hstage => exact Or.inl (hput rfl hturn fun hn hd => hn ▸ hd)

theorem Orderly.watchful (h : Orderly tokens s m) : Watchful tokens s m := by
  cases m with
  | server l => exact h
  | _ => trivial

/-- No job but that of an open goroutine runs on its node. -/
theorem Attentive.onlyRuns (hI : Attentive app tokens db clock s) (hdb : NoneRunning db) {n : Uuid}
    {k : Nat} {r : JobRun} (hk : (s.daemons n).runs[k]? = some r) (hopen : r.isOpen = true) :
    OnlyRuns n r.job.jobId s.server.db := by
  intro j hj hrun
  rcases hI.running hk hopen with ⟨j', hj', hrun'⟩ | ⟨hgone, -⟩
  · exact hI.onePerNode j.id r.job.jobId j j' n hj hj' hrun hrun'
  · -- nothing runs on a node that has been removed
    have hthere := lodged_of_reach hdb.unassigned hdb.lodged hI.reach j.id j n hj hrun
    rw [hgone] at hthere
    cases hthere

theorem heard_act {d d' : Daemon} {a : DaemonAct} (h : d.act a = some d') :
    d'.heard = d.heard := by
  cases a <;> simp only [Daemon.act] at h <;> (try split at h) <;> (try split at h) <;>
    cases h <;> rfl

theorem heard_cancel (d : Daemon) (k : Nat) : (d.cancel k).heard = d.heard := by
  unfold Daemon.cancel
  split <;> rfl

theorem heard_afterHeartbeat {d : Daemon} {c : Option Uuid} {id : Uuid}
    (h : id ∈ (d.afterHeartbeat c).heard) : id ∈ d.heard ∨ c = some id := by
  have hheard : (d.afterHeartbeat c).heard = d.heard ++ c.toList := by
    unfold Daemon.afterHeartbeat
    dsimp only
    split
    · split
      · exact heard_cancel _ _
      · rfl
    · rfl
  rw [hheard, List.mem_append, Option.mem_toList] at h
  exact h

/-- What a daemon hears a heartbeat has told it. -/
theorem heard_cases (h : Happens app tokens s m s') {n id : Uuid}
    (hid : id ∈ (s'.daemons n).heard) :
    id ∈ (s.daemons n).heard ∨ ∃ (i : Nat) (th : Pending) (t : Time),
      (s.daemons n).turn = .heartbeat (some i) ∧ s.server.threads[i]? = some th ∧
      th.prog = .ret (.heartbeat t (some id)) := by
  have hput : ∀ {t : Fleet} {n' : Uuid} {d : Daemon}, t.daemons = s.daemons →
      id ∈ ((t.put n' d).daemons n).heard → d.heard = (s.daemons n').heard →
      id ∈ (s.daemons n).heard := by
    intro t n' d ht hid hd
    simp only [Fleet.put, Function.update_apply, ht] at hid
    split at hid
    · rename_i hn
      rw [hn, ← hd]
      exact hid
    · exact hid
  cases h with
  | server hforeign ht => exact Or.inl hid
  | daemon ha => exact Or.inl (hput rfl hid (heard_act ha))
  | hears hturn hi hprog =>
    rename_i n' i th t c
    by_cases hn : n = n'
    · subst hn
      simp only [Fleet.put, Function.update_self] at hid
      rcases heard_afterHeartbeat hid with hid | rfl
      · exact Or.inl hid
      · exact Or.inr ⟨i, th, t, hturn, hi, hprog⟩
    · simp only [Fleet.put, Function.update_of_ne hn] at hid
      exact Or.inl hid
  | sendsHeartbeat hturn => exact Or.inl (hput rfl hid rfl)
  | sendsClaim hturn => exact Or.inl (hput rfl hid rfl)
  | hearsError hturn => exact Or.inl (hput rfl hid rfl)
  | launches hturn hi hprog => exact Or.inl (hput rfl hid rfl)
  | findsNoJob hturn hi hprog => exact Or.inl (hput rfl hid rfl)
  | claimsInVain hturn => exact Or.inl (hput rfl hid rfl)
  | posts hk hstage => exact Or.inl (hput rfl hid rfl)
  | isRejected hk hstage => exact Or.inl (hput rfl hid rfl)
  | isAccepted hk hstage hi hprog => exact Or.inl (hput rfl hid rfl)
  | isRefused hk hstage => exact Or.inl (hput rfl hid rfl)

/-- **The daemons stay sober**, since a heartbeat names what its daemon runs. -/
theorem sober_step (hI : Attentive app tokens db clock s) (ho : Orderly tokens s m)
    (h : Happens app tokens s m s') (n : Uuid) : (s'.daemons n).Sober := by
  have hput : ∀ {t : Fleet} {n' : Uuid} {d : Daemon}, t.daemons = s.daemons → d.Sober →
      ((t.put n' d).daemons n).Sober := by
    intro t n' d ht hd
    simp only [Fleet.put, Function.update_apply, ht]
    split
    · exact hd
    · exact hI.sober n
  cases h with
  | server hforeign ht => exact hI.sober n
  | daemon ha => exact hput rfl (sober_act (hI.sober _) ho ha)
  | hears hturn hi hprog =>
    rename_i n' i th t c
    refine hput rfl (sober_afterHeartbeat (hI.sober n') fun id hc k r hk hlive => ?_)
    obtain ⟨th', hi', hamid⟩ := hI.names n' i k r hturn hk (JobRun.isOpen_of_live hlive)
    rw [hi, Option.some.injEq] at hi'
    subst hi'
    rw [hprog] at hamid
    exact (hamid t id (by rw [hc])).symm
  | sendsHeartbeat hturn => exact hput rfl ((hI.sober _).congr rfl rfl rfl rfl)
  | sendsClaim hturn => exact hput rfl ((hI.sober _).congr rfl rfl rfl rfl)
  | hearsError hturn => exact hput rfl ((hI.sober _).congr rfl rfl rfl rfl)
  | launches hturn hi hprog => exact hput rfl (sober_launch (hI.sober _) _ _)
  | findsNoJob hturn hi hprog => exact hput rfl ((hI.sober _).congr rfl rfl rfl rfl)
  | claimsInVain hturn => exact hput rfl ((hI.sober _).congr rfl rfl rfl rfl)
  | posts hk hstage => exact hput rfl (sober_enter (hI.sober _) (by simp))
  | isRejected hk hstage => exact hput rfl (sober_enter (hI.sober _) (by simp))
  | isAccepted hk hstage hi hprog => exact hput rfl (sober_enter (hI.sober _) (by simp))
  | isRefused hk hstage => exact hput rfl (sober_enter (hI.sober _) (by simp))

/-- A request goes on as it is said to, from one store to the next. -/
theorem amid_happens (h : Happens app tokens s m s') {D : Database → Prop} {Q : Response → Prop}
    {i : Nat} {th : Pending} (hi : s.server.threads[i]? = some th) (hdb : D s.server.db)
    (ha : th.prog.Amid D th.ses fun a _ => Q a) :
    ∃ th' : Pending, s'.server.threads[i]? = some th' ∧
      th'.prog.Amid D th'.ses fun a _ => Q a := by
  rcases server_cases h with he | ⟨l, hl, -⟩
  · exact ⟨th, he ▸ hi, ha⟩
  · obtain ⟨th', hi'⟩ := thread_after hl hi
    exact ⟨th', hi', amid_step hl hi hi' hdb ha⟩

theorem cancelRequested_happens (h : Happens app tokens s m s') {id : Uuid}
    (hc : CancelRequested app s.server id) : CancelRequested app s'.server id := by
  rcases server_cases h with he | ⟨l, hl, -⟩
  · exact he ▸ hc
  · exact cancelRequested_step hl hc

/-- **Heartbeats go on naming what the daemons run.** -/
theorem attentive_step (hdb : NoneRunning db) (hI : Attentive app tokens db clock s)
    (hown : Owned app tokens s.server.db) (ho : Orderly tokens s m)
    (h : Happens app tokens s m s') :
    Attentive app tokens db clock s' := by
  have hands := hands_of_happens h
  refine { placed_step hdb.unassigned hI.toPlaced hown ho.watchful h with
    overseen := ?_, names := ?_, marks := ?_, heard := ?_, sober := sober_step hI ho h }
  · rcases server_cases h with he | ⟨l, hl, -⟩
    · rw [he]; exact hI.overseen
    · exact overseen_step hI.ok hI.overseen hl
  · intro n i k r' hturn hk hopen
    rcases turn_cases h hturn with hold | hnew
    · rcases run_cases hands hk with ⟨r, hk, hon⟩ | ⟨i', th, hclaim, -⟩
      · have hopen₀ := hon.isOpen hopen
        obtain ⟨th, hi, ha⟩ := hI.names n i k r hold hk hopen₀
        rw [hon.job]
        exact amid_happens h hi (hI.onlyRuns hdb hk hopen₀) ha
      · rw [hold] at hclaim
        cases hclaim
    · exact ⟨_, hnew, heartbeat_amid fun db hD j hj hrun _ => hD j hj hrun⟩
  · intro n i hturn
    rcases turn_cases h hturn with hold | hnew
    · obtain ⟨th, hi, ha⟩ := hI.marks n i hold
      rcases server_cases h with he | ⟨l, hl, -⟩
      · exact ⟨th, he ▸ hi, fun C hC => ha C (he ▸ hC)⟩
      · obtain ⟨th', hi'⟩ := thread_after hl hi
        refine ⟨th', hi', fun C hC => ?_⟩
        have hC₀ : ∀ id, CancelRequested app s.server id → C id :=
          fun id hr => hC id (cancelRequested_step hl hr)
        exact amid_step hl hi hi' (fun id hdue => hC₀ id (hI.overseen id hdue)) (ha C hC₀)
    · refine ⟨_, hnew, fun C _ => heartbeat_amid fun db hD j hj hrun hflag => hD j.id ?_⟩
      exact ⟨j, hj, by rw [(runningOn_iff.1 hrun).2]; rfl, hflag⟩
  · intro n id hid
    rcases heard_cases h hid with hid | ⟨i, th, t, hturn, hi, hprog⟩
    · exact cancelRequested_happens h (hI.heard n id hid)
    · obtain ⟨th', hi', ha⟩ := hI.marks n i hturn
      rw [hi, Option.some.injEq] at hi'
      subst hi'
      have hC := ha (CancelRequested app s.server) fun _ hr => hr
      rw [hprog] at hC
      exact cancelRequested_happens h (hC t id rfl)

/-- A store in which no job runs, and no cancel is due. -/
structure NothingDue (db : Database) : Prop extends NoneRunning db where
  undue : ∀ id, ¬ CancelDue db id

theorem attentive_atRest (hdb : NothingDue db) (clock : Time) :
    Attentive app tokens db clock (atRest db clock) where
  toPlaced := placed_atRest hdb.toNoneRunning clock
  overseen id hdue := absurd hdue (hdb.undue id)
  names n i k r hturn := by cases hturn
  marks n i hturn := by cases hturn
  heard n id hid := by cases hid
  sober n := ⟨fun k r hk => by simp [atRest] at hk, fun id hid => (nomatch hid),
    fun id hid => (nomatch hid)⟩

/-- **Heartbeats name what the daemons run**, in every state of an orderly run. -/
theorem attentive_of_run (hdb : NothingDue db)
    (h : Run (Fleet.step app tokens) (fun s m => TokensOwned app tokens s m ∧ Orderly tokens s m)
      (atRest db clock) s) : Attentive app tokens db clock s :=
  h.invariant (Attentive app tokens db clock)
    (fun _ _ _ hI ht hs => attentive_step hdb.toNoneRunning hI ht.1 ht.2 (happens_of_step hs))
    (attentive_atRest hdb clock)

/-- A daemon has aborted, or reported as cancelled, only jobs that it was told to cancel, and
whose cancel their owner or an administrator has requested. -/
def OnlyCancelled (app : App) (s : Fleet) : Prop :=
  ∀ n id, id ∈ (s.daemons n).aborted ∨ (id, cancelReport) ∈ (s.daemons n).reports →
    id ∈ (s.daemons n).heard ∧ CancelRequested app s.server id

/-- **The daemons abort only what was cancelled**, in every orderly run. -/
theorem daemons_abort_only_the_cancelled (app : App) (tokens : Uuid → Str) (hdb : NothingDue db)
    (clock : Time) (h : Run (Fleet.step app tokens)
      (fun s m => TokensOwned app tokens s m ∧ Orderly tokens s m) (atRest db clock) s) :
    OnlyCancelled app s := by
  have hI := attentive_of_run hdb h
  intro n id hid
  have hheard : id ∈ (s.daemons n).heard := by
    rcases hid with hid | hid
    · exact (hI.sober n).aborted id hid
    · exact (hI.sober n).reported id hid
  exact ⟨hheard, hI.heard n id hheard⟩

/-! ## Two runs -/

instance (d : Daemon) (a : DaemonAct) : Decidable (d.Calm a) :=
  match a with
  | .signal => inferInstanceAs (Decidable (∀ r ∈ d.runs, r.isLive = false))
  | .starts _ => inferInstanceAs (Decidable (d.signalled = false))
  | .runnerEnds _ e => inferInstanceAs (Decidable (e.bare ≠ some cancelledMessage))
  | .tick => isTrue trivial
  | .callFails => isTrue trivial
  | .deadline _ => isTrue trivial
  | .completeFails _ => isTrue trivial
  | .returns _ => isTrue trivial
  | .exits => isTrue trivial
  | .boots => isTrue trivial

/-- The write inserts a node. -/
def registersNode : Write Row Key → Bool
  | .insert (.node _) => true
  | _ => false

/-- Only `sampleNode` has a token, and the step is orderly, as a check. -/
def isOrderly (s : Fleet) (m : FleetAct) : Bool :=
  tokensAreSample s.server.db &&
  match m with
  | .server l => passes (fun s _ th => decide (¬ Occupied s.db th.ses.tx ∧
      ¬ Snatched s.db th.ses.tx) && !th.ses.tx.writes.any registersNode) s.server l
  | .daemon n a => decide ((s.daemons n).Calm a)
  | _ => true

theorem isOrderly_sound {s : Fleet} {m : FleetAct} (h : isOrderly s m = true) :
    TokensOwned plainApp sampleTokens s m ∧ Orderly sampleTokens s m := by
  unfold isOrderly at h
  rw [Bool.and_eq_true] at h
  refine ⟨owned_of_sample h.1, ?_⟩
  cases m with
  | server l =>
    intro i th hc
    have hpass := passes_sound h.2 hc
    simp only [Bool.and_eq_true, decide_eq_true_eq, Bool.not_eq_true', List.any_eq_false] at hpass
    obtain ⟨⟨hoccupied, hsnatch⟩, hnew⟩ := hpass
    refine ⟨hoccupied, hsnatch, ?_⟩
    rintro ⟨n, id, i', hw, -⟩
    exact hnew _ hw rfl
  | daemon n a => exact (of_decide_eq_true h.2 : (s.daemons n).Calm a)
  | _ => trivial

theorem nothingDue_queuedDb : NothingDue queuedDb where
  toNoneRunning := noneRunning_queuedDb
  undue id h := by
    obtain ⟨j, hj, -, hflag⟩ := h
    rw [job_queuedDb hj] at hflag
    cases hflag

/-- The owner cancels the job, a heartbeat says so, and the daemon stops and reports it. -/
def cancelledRun : List FleetAct :=
  executing ++ .server (.spawn (.cancelJob sampleCaller 3)) :: serves 2 10 ++
    [.daemon 2 .tick, .sends 2] ++ serves 3 7 ++
      [.receives 2, .daemon 2 (.runnerEnds 0 (.exited 137))]

theorem daemons_abort_only_the_cancelled_at_cancelledRun :
    ∃ s, Run (Fleet.step plainApp sampleTokens)
      (fun s m => TokensOwned plainApp sampleTokens s m ∧ Orderly sampleTokens s m)
      (atRest queuedDb 0) s ∧
      (s.daemons 2).aborted = [3] ∧ (s.daemons 2).reports = [(3, cancelReport)] ∧
      OnlyCancelled plainApp s := by
  obtain ⟨s, hs, hend⟩ := Option.map_eq_some_iff.1 (show
    (play (Fleet.step plainApp sampleTokens) isOrderly (atRest queuedDb 0) cancelledRun).map
      (fun s => ((s.daemons 2).aborted, (s.daemons 2).reports)) = some ([3], [(3, cancelReport)]) by
      decide +kernel)
  have hr : Run (Fleet.step plainApp sampleTokens)
      (fun s m => TokensOwned plainApp sampleTokens s m ∧ Orderly sampleTokens s m)
      (atRest queuedDb 0) s :=
    Run.of_play (fun _ _ h => isOrderly_sound h) hs
  exact ⟨s, hr, (Prod.mk.inj hend).1, (Prod.mk.inj hend).2,
    daemons_abort_only_the_cancelled plainApp sampleTokens nothingDue_queuedDb 0 hr⟩

/-- A signal arrives while the job runs. -/
def signalledRun : List FleetAct :=
  executing ++ [.daemon 2 .signal, .daemon 2 (.runnerEnds 0 (.exited 137))]

/-- **A signal is reported as a cancel.** -/
theorem signal_is_reported_as_cancel :
    ∃ s, Run (Fleet.step plainApp sampleTokens) anyStep (atRest queuedDb 0) s ∧
      ¬ OnlyCancelled plainApp s := by
  obtain ⟨s, hs, hend⟩ := Option.map_eq_some_iff.1 (show
    (play (Fleet.step plainApp sampleTokens) (fun _ _ => true) (atRest queuedDb 0) signalledRun).map
      (fun s => ((s.daemons 2).heard, (s.daemons 2).reports)) = some ([], [(3, cancelReport)]) by
      decide +kernel)
  obtain ⟨hheard, hreports⟩ := Prod.mk.inj hend
  refine ⟨s, Run.of_play (fun _ _ _ => trivial) hs, fun h => ?_⟩
  have hmem := (h 2 3 (Or.inr (by rw [hreports]; exact List.mem_singleton_self _))).1
  rw [hheard] at hmem
  cases hmem

end GpuNetwork.Agent
