import GpuNetwork.Agent.Fleet
import GpuNetwork.Jobs.Assignment

/-!
# Who has been given what

A claim is answered once, so each goroutine of a daemon has its own claim, and a claim that
has reached the control plane is accounted for by the daemon that made it.

* `Daemon.claimAt` — the claims a daemon has in hand.
* `Daemon.Accounts` — what a daemon knows of a claim it made.
* `Linked`, `linked_of_run` — how the requests of daemons and their goroutines go together.
-/

namespace GpuNetwork.Agent

open ReadCommitted ReadCommitted.Spec Machine

/-- The claim in hand: the one that is pending, or that of a goroutine. -/
def Daemon.claimAt (d : Daemon) : Option Nat → Option Nat
  | none => d.pendingClaim
  | some k => (d.runs[k]?).map JobRun.claim

/-- The daemon knows what has become of its claim `i`: it waits for the answer, has seen an
error, has started the job, or is told that there is none. -/
def Daemon.Accounts (d : Daemon) (i : Nat) (th : Pending) : Prop :=
  d.pendingClaim = some i ∨ i ∈ d.lost ∨
    (∃ (k : Nat) (r : JobRun), d.runs[k]? = some r ∧ r.claim = i) ∨
    th.prog = .ret .noContent

section Daemons

variable {d d' : Daemon}

theorem Daemon.Grows.run (h : d.Grows d') {k : Nat} {r : JobRun} (hk : d.runs[k]? = some r) :
    ∃ r', d'.runs[k]? = some r' ∧ r.Onward r' := by
  have hrel := h.runs k
  rw [hk] at hrel
  generalize d'.runs[k]? = o at hrel
  cases hrel with
  | some hr => exact ⟨_, rfl, hr⟩

theorem Daemon.Grows.run_before (h : d.Grows d') {k : Nat} {r' : JobRun}
    (hk : d'.runs[k]? = some r') : ∃ r, d.runs[k]? = some r ∧ r.Onward r' := by
  have hrel := h.runs k
  rw [hk] at hrel
  generalize d.runs[k]? = o at hrel
  cases hrel with
  | some hr => exact ⟨_, rfl, hr⟩

theorem Daemon.Grows.claimAt (h : d.Grows d') {slot : Option Nat} {i : Nat}
    (hi : d'.claimAt slot = some i) : d.claimAt slot = some i := by
  cases slot with
  | none => exact h.pending i hi
  | some k =>
    obtain ⟨r', hk, rfl⟩ := Option.map_eq_some_iff.1 hi
    obtain ⟨r, hk', hr⟩ := h.run_before hk
    exact Option.map_eq_some_iff.2 ⟨r, hk', hr.claim.symm⟩

theorem grows_enter {k : Nat} {r : JobRun} {stage : Stage} (hk : d.runs[k]? = some r)
    (hclosed : ({ r with stage } : JobRun).isOpen = false) : d.Grows (d.enter k r stage) :=
  Daemon.grows_of_set hk (r.onward_closed hclosed) rfl rfl rfl rfl

end Daemons

/-! ## What a step does to the daemons -/

variable {app : App} {tokens : Uuid → Str} {s s' : Fleet} {m : FleetAct}

/-- **What a step does to the daemons.**  They grow, or one of them makes a claim, is given a
job, or is told that there is none. -/
inductive Hands (app : App) (tokens : Uuid → Str) (s s' : Fleet) : Prop
  | grows : (∀ n, (s.daemons n).Grows (s'.daemons n)) → Hands app tokens s s'
  | claims {n : Uuid} : (s.daemons n).turn = .claim none →
      s' = (s.arrive app (.claimJob (some (tokens n)))).put n
        { s.daemons n with turn := .claim (some s.next) } → Hands app tokens s s'
  | launches {n : Uuid} {i : Nat} {th : Pending} {job : JobAssignment} :
      (s.daemons n).turn = .claim (some i) → s.server.threads[i]? = some th →
      th.prog = .ret (.assignment job.jobId job.dockerImage job.command job.maxDurationSeconds) →
      s' = s.put n ((s.daemons n).launch job i) → Hands app tokens s s'
  | findsNoJob {n : Uuid} {i : Nat} {th : Pending} :
      (s.daemons n).turn = .claim (some i) → s.server.threads[i]? = some th →
      th.prog = .ret .noContent → s' = s.put n { s.daemons n with turn := .idle } →
      Hands app tokens s s'

theorem grows_put {t : Fleet} (ht : t.daemons = s.daemons) {n : Uuid} {d : Daemon}
    (h : (s.daemons n).Grows d) (m : Uuid) : (s.daemons m).Grows ((t.put n d).daemons m) := by
  simp only [Fleet.put, Function.update_apply, ht]
  split
  · rename_i hm
    rw [hm]
    exact h
  · exact Daemon.Grows.refl

theorem hands_of_happens (h : Happens app tokens s m s') : Hands app tokens s s' := by
  cases h with
  | server hforeign ht => exact .grows fun n => Daemon.Grows.refl
  | daemon ha => exact .grows (grows_put rfl (Daemon.grows_act ha))
  | sendsHeartbeat hturn =>
    exact .grows (grows_put rfl (Daemon.Grows.refl.turns (by rw [Daemon.pendingClaim, hturn])
      (by simp)))
  | sendsClaim hturn => exact .claims hturn rfl
  | hears hturn hi hprog => exact .grows (grows_put rfl (Daemon.grows_afterHeartbeat hturn _))
  | hearsError hturn =>
    exact .grows (grows_put rfl (Daemon.Grows.refl.turns (by rw [Daemon.pendingClaim, hturn])
      (by simp)))
  | launches hturn hi hprog => exact .launches hturn hi hprog rfl
  | findsNoJob hturn hi hprog => exact .findsNoJob hturn hi hprog rfl
  | claimsInVain hturn =>
    rename_i n i
    refine .grows (grows_put rfl ⟨Daemon.onward_refl _, fun i hi => List.mem_append_left _ hi,
      fun _ => id, fun i hi => ?_, fun j hj => Or.inr (List.mem_append_right _ ?_)⟩)
    · cases hi
    · rw [Daemon.pendingClaim, hturn] at hj
      simp [Option.some.inj hj]
  | posts hk hstage => exact .grows (grows_put rfl (grows_enter hk rfl))
  | isRejected hk hstage => exact .grows (grows_put rfl (grows_enter hk rfl))
  | isAccepted hk hstage hi hprog => exact .grows (grows_put rfl (grows_enter hk rfl))
  | isRefused hk hstage => exact .grows (grows_put rfl (grows_enter hk rfl))

/-! ## Requests and goroutines -/

/-- How the requests of daemons and their goroutines go together. -/
structure Linked (tokens : Uuid → Str) (s : Fleet) : Prop where
  /-- A goroutine has the job that its claim was answered with. -/
  run : ∀ (n : Uuid) (k : Nat) (r : JobRun), (s.daemons n).runs[k]? = some r → ∃ th : Pending,
    s.server.threads[r.claim]? = some th ∧ th.req = .claimJob (some (tokens n)) ∧
    th.prog = .ret (.assignment r.job.jobId r.job.dockerImage r.job.command
      r.job.maxDurationSeconds)
  pending : ∀ (n : Uuid) (i : Nat), (s.daemons n).pendingClaim = some i → ∃ th : Pending,
    s.server.threads[i]? = some th ∧ th.req = .claimJob (some (tokens n))
  /-- A claim is in hand once. -/
  once : ∀ (n n' : Uuid) (slot slot' : Option Nat) (i : Nat),
    (s.daemons n).claimAt slot = some i → (s.daemons n').claimAt slot' = some i →
    n = n' ∧ slot = slot'
  claim : ∀ (i : Nat) (th : Pending) (bearer : Option Str), s.server.threads[i]? = some th →
    th.req = .claimJob bearer → ∃ n, bearer = some (tokens n) ∧ (s.daemons n).Accounts i th
  /-- A job is reported by a goroutine that has run it. -/
  complete : ∀ (i : Nat) (th : Pending) (bearer : Option Str) (id : Uuid)
    (p : CompleteJobRequest), s.server.threads[i]? = some th → th.req = .completeJob bearer id p →
    ∃ (n : Uuid) (k : Nat) (r : JobRun), (s.daemons n).runs[k]? = some r ∧
      r.job.jobId = id ∧ r.isOpen = false

/-- A request in the control plane goes on, and keeps its answer. -/
theorem thread_onward (h : Happens app tokens s m s') {i : Nat} {th : Pending}
    (hi : s.server.threads[i]? = some th) : ∃ th' : Pending, s'.server.threads[i]? = some th' ∧
      th'.req = th.req ∧ (th.prog.Finished = true → th'.prog = th.prog) := by
  rcases server_cases h with he | ⟨l, hl, -⟩
  · exact ⟨th, he ▸ hi, rfl, fun _ => rfl⟩
  · exact thread_later hl hi

/-- A request was in the control plane before, or it has just arrived: from a daemon, or from
somebody else. -/
theorem thread_origin (h : Happens app tokens s m s') {i : Nat} {th' : Pending}
    (hi : s'.server.threads[i]? = some th') :
    (∃ th : Pending, s.server.threads[i]? = some th ∧ th'.req = th.req) ∨
    (i = s.next ∧ (ofDaemon th'.req = false ∨ (∃ n, th'.req = .heartbeat (some (tokens n)) n) ∨
      (∃ n, th'.req = .claimJob (some (tokens n)) ∧
        (s'.daemons n).turn = .claim (some s.next)) ∨
      ∃ (n : Uuid) (k : Nat) (r : JobRun) (report : Report) (p : CompleteJobRequest),
        (s'.daemons n).runs[k]? = some r ∧ r.stage = .completing report (some s.next) ∧
        completeRequest report = some p ∧
        th'.req = .completeJob (some (tokens n)) r.job.jobId p)) := by
  cases h with
  | server hforeign ht =>
    rcases thread_earlier ht hi with hold | ⟨hlen, rfl⟩
    · exact Or.inl hold
    · exact Or.inr ⟨hlen, Or.inl (by simpa [foreign] using hforeign)⟩
  | sendsHeartbeat hturn =>
    rcases getElem?_concat_cases hi with hi | ⟨hlen, rfl⟩
    · exact Or.inl ⟨th', hi, rfl⟩
    · exact Or.inr ⟨hlen, Or.inr (Or.inl ⟨_, rfl⟩)⟩
  | sendsClaim hturn =>
    rename_i n
    rcases getElem?_concat_cases hi with hi | ⟨hlen, rfl⟩
    · exact Or.inl ⟨th', hi, rfl⟩
    · refine Or.inr ⟨hlen, Or.inr (Or.inr (Or.inl ⟨n, rfl, ?_⟩))⟩
      simp [Fleet.put]
  | posts hk hstage hp =>
    rename_i n k r report p
    rcases getElem?_concat_cases hi with hi | ⟨hlen, rfl⟩
    · exact Or.inl ⟨th', hi, rfl⟩
    · refine Or.inr ⟨hlen, Or.inr (Or.inr (Or.inr ⟨n, k,
        { r with stage := .completing report (some s.next) }, report, p, ?_, rfl, hp, rfl⟩))⟩
      simp only [Fleet.put, Function.update_self, Daemon.enter]
      exact List.getElem?_set_self (List.getElem?_eq_some_iff.1 hk).1
  | _ => exact Or.inl ⟨th', hi, rfl⟩

/-- What is in hand is in the control plane. -/
theorem Linked.thread_of_claimAt (h : Linked tokens s) {n : Uuid} {slot : Option Nat} {i : Nat}
    (hi : (s.daemons n).claimAt slot = some i) : ∃ th : Pending, s.server.threads[i]? = some th ∧
      th.req = .claimJob (some (tokens n)) := by
  cases slot with
  | none => exact h.pending n i hi
  | some k =>
    obtain ⟨r, hk, rfl⟩ := Option.map_eq_some_iff.1 hi
    obtain ⟨th, hth, hreq, -⟩ := h.run n k r hk
    exact ⟨th, hth, hreq⟩

theorem Linked.lt_next (h : Linked tokens s) {n : Uuid} {slot : Option Nat} {i : Nat}
    (hi : (s.daemons n).claimAt slot = some i) : i < s.next := by
  obtain ⟨th, hth, -⟩ := h.thread_of_claimAt hi
  exact (List.getElem?_eq_some_iff.1 hth).1

/-- After a step every goroutine was there before, or it has just been launched. -/
theorem run_cases (h : Hands app tokens s s') {n : Uuid} {k : Nat} {r' : JobRun}
    (hk : (s'.daemons n).runs[k]? = some r') :
    (∃ r, (s.daemons n).runs[k]? = some r ∧ r.Onward r') ∨
    ∃ (i : Nat) (th : Pending), (s.daemons n).turn = .claim (some i) ∧
      s.server.threads[i]? = some th ∧
      th.prog = .ret (.assignment r'.job.jobId r'.job.dockerImage r'.job.command
        r'.job.maxDurationSeconds) ∧ k = (s.daemons n).runs.length ∧
      r' = { job := r'.job, claim := i } ∧ s' = s.put n ((s.daemons n).launch r'.job i) := by
  cases h with
  | grows hgrows => exact Or.inl ((hgrows n).run_before hk)
  | claims hturn hs =>
    subst hs
    simp only [Fleet.put, Function.update_apply] at hk
    split at hk
    · rename_i hm
      subst hm
      exact Or.inl ⟨r', hk, JobRun.Onward.refl⟩
    · exact Or.inl ⟨r', hk, JobRun.Onward.refl⟩
  | launches hturn hi hprog hs =>
    rename_i n' i th job
    subst hs
    simp only [Fleet.put, Function.update_apply] at hk
    split at hk
    · rename_i hm
      subst hm
      rcases getElem?_concat_cases hk with hk | ⟨hlen, rfl⟩
      · exact Or.inl ⟨r', hk, JobRun.Onward.refl⟩
      · exact Or.inr ⟨i, th, hturn, hi, hprog, hlen, rfl, rfl⟩
    · exact Or.inl ⟨r', hk, JobRun.Onward.refl⟩
  | findsNoJob hturn hi hprog hs =>
    subst hs
    simp only [Fleet.put, Function.update_apply] at hk
    split at hk
    · rename_i hm
      subst hm
      exact Or.inl ⟨r', hk, JobRun.Onward.refl⟩
    · exact Or.inl ⟨r', hk, JobRun.Onward.refl⟩

/-- After a step every goroutine is still there. -/
theorem run_after (h : Hands app tokens s s') {n : Uuid} {k : Nat} {r : JobRun}
    (hk : (s.daemons n).runs[k]? = some r) :
    ∃ r', (s'.daemons n).runs[k]? = some r' ∧ r.Onward r' := by
  have hput : ∀ {t : Fleet} {n' : Uuid} {d : Daemon}, t.daemons = s.daemons →
      (d.runs = (s.daemons n').runs ∨ ∃ x, d.runs = (s.daemons n').runs ++ [x]) →
      ∃ r', ((t.put n' d).daemons n).runs[k]? = some r' ∧ r.Onward r' := by
    intro t n' d ht hd
    refine ⟨r, ?_, JobRun.Onward.refl⟩
    simp only [Fleet.put, Function.update_apply, ht]
    split
    · rename_i hm
      subst hm
      rcases hd with hd | ⟨x, hd⟩
      · rw [hd, hk]
      · rw [hd, List.getElem?_append_left (List.getElem?_eq_some_iff.1 hk).1, hk]
    · exact hk
  cases h with
  | grows hgrows => exact (hgrows n).run hk
  | claims hturn hs => subst hs; exact hput rfl (Or.inl rfl)
  | launches hturn hi hprog hs => subst hs; exact hput rfl (Or.inr ⟨_, rfl⟩)
  | findsNoJob hturn hi hprog hs => subst hs; exact hput rfl (Or.inl rfl)

/-- After a step a claim in hand was in hand before, in the same place or pending, or it has
just been made. -/
theorem claimAt_cases (h : Hands app tokens s s') {n : Uuid} {slot : Option Nat} {i : Nat}
    (hi : (s'.daemons n).claimAt slot = some i) :
    (s.daemons n).claimAt slot = some i ∨
    ((s.daemons n).pendingClaim = some i ∧ slot = some (s.daemons n).runs.length ∧
      (s'.daemons n).pendingClaim = none) ∨
    (slot = none ∧ i = s.next ∧ (∀ n', n' ≠ n → s'.daemons n' = s.daemons n') ∧
      ∃ th : Pending, s'.server.threads[i]? = some th ∧ th.req = .claimJob (some (tokens n))) := by
  cases h with
  | grows hgrows => exact Or.inl ((hgrows n).claimAt hi)
  | claims hturn hs =>
    rename_i n'
    subst hs
    simp only [Fleet.put, Function.update_apply] at hi
    split at hi
    · rename_i hm
      subst hm
      cases slot with
      | none =>
        have hnext : i = s.next := (Option.some.inj hi).symm
        refine Or.inr (Or.inr ⟨rfl, hnext, fun n' hn => ?_,
          ⟨_, handle app (.claimJob (some (tokens n))), {}, none⟩, ?_, rfl⟩)
        · simp [Fleet.put, Fleet.arrive, Function.update_of_ne hn]
        · rw [hnext]
          exact List.getElem?_concat_length
      | some k => exact Or.inl hi
    · exact Or.inl hi
  | launches hturn hth hprog hs =>
    rename_i n' j th job
    subst hs
    simp only [Fleet.put, Function.update_apply] at hi
    split at hi
    · rename_i hm
      subst hm
      cases slot with
      | none => cases hi
      | some k =>
        obtain ⟨r, hk, rfl⟩ := Option.map_eq_some_iff.1 hi
        rcases getElem?_concat_cases hk with hk | ⟨hlen, rfl⟩
        · exact Or.inl (Option.map_eq_some_iff.2 ⟨r, hk, rfl⟩)
        · refine Or.inr (Or.inl ⟨by rw [Daemon.pendingClaim, hturn], by rw [hlen], ?_⟩)
          simp [Fleet.put, Daemon.launch, Daemon.pendingClaim]
    · exact Or.inl hi
  | findsNoJob hturn hth hprog hs =>
    subst hs
    simp only [Fleet.put, Function.update_apply] at hi
    split at hi
    · rename_i hm
      subst hm
      cases slot with
      | none => cases hi
      | some k => exact Or.inl hi
    · exact Or.inl hi

/-! ## Runs -/

theorem lost_step (h : Hands app tokens s s') {n : Uuid} {i : Nat}
    (hi : i ∈ (s.daemons n).lost) : i ∈ (s'.daemons n).lost := by
  have hput : ∀ {t : Fleet} {n' : Uuid} {d : Daemon}, t.daemons = s.daemons →
      d.lost = (s.daemons n').lost → i ∈ ((t.put n' d).daemons n).lost := by
    intro t n' d ht hd
    simp only [Fleet.put, Function.update_apply, ht]
    split
    · rename_i hm
      rw [hd, ← hm]
      exact hi
    · exact hi
  cases h with
  | grows hgrows => exact (hgrows n).lost i hi
  | claims hturn hs => subst hs; exact hput rfl rfl
  | launches hturn hth hreply hs => subst hs; exact hput rfl rfl
  | findsNoJob hturn hth hreply hs => subst hs; exact hput rfl rfl

/-- A daemon goes on accounting for its claims. -/
theorem accounts_step (h : Hands app tokens s s') {n : Uuid} {i : Nat} {th th' : Pending}
    (hi : s.server.threads[i]? = some th)
    (hprog : th.prog.Finished = true → th'.prog = th.prog)
    (ha : (s.daemons n).Accounts i th) : (s'.daemons n).Accounts i th' := by
  have hno : th.prog = .ret .noContent → th'.prog = .ret .noContent := by
    intro hret
    rw [hprog (by rw [hret]; rfl), hret]
  rcases ha with hp | hl | ⟨k, r, hk, rfl⟩ | hr
  · cases h with
    | grows hgrows =>
      rcases (hgrows n).given i hp with hp | hl
      · exact Or.inl hp
      · exact Or.inr (Or.inl hl)
    | claims hturn hs =>
      rename_i n'
      subst hs
      simp only [Fleet.put, Function.update_apply]
      by_cases hm : n = n'
      · subst hm
        rw [Daemon.pendingClaim, hturn] at hp
        cases hp
      · rw [if_neg hm]
        exact Or.inl hp
    | launches hturn hth hreply hs =>
      rename_i n' j t job
      subst hs
      simp only [Fleet.put, Function.update_apply]
      by_cases hm : n = n'
      · subst hm
        rw [Daemon.pendingClaim, hturn, Option.some.injEq] at hp
        subst hp
        rw [if_pos rfl]
        exact Or.inr (Or.inr (Or.inl ⟨_, { job, claim := j }, List.getElem?_concat_length, rfl⟩))
      · rw [if_neg hm]
        exact Or.inl hp
    | findsNoJob hturn hth hreply hs =>
      rename_i n' j t
      subst hs
      simp only [Fleet.put, Function.update_apply]
      by_cases hm : n = n'
      · subst hm
        rw [Daemon.pendingClaim, hturn, Option.some.injEq] at hp
        subst hp
        rw [hi, Option.some.injEq] at hth
        subst hth
        exact Or.inr (Or.inr (Or.inr (hno hreply)))
      · rw [if_neg hm]
        exact Or.inl hp
  · exact Or.inr (Or.inl (lost_step h hl))
  · obtain ⟨r', hk', hr⟩ := run_after h hk
    exact Or.inr (Or.inr (Or.inl ⟨k, r', hk', hr.claim⟩))
  · exact Or.inr (Or.inr (Or.inr (hno hr)))

theorem JobRun.Onward.closed {r r' : JobRun} (h : r.Onward r') (hr : r.isOpen = false) :
    r'.isOpen = false := by
  cases hr' : r'.isOpen with
  | false => rfl
  | true =>
    rw [h.isOpen hr'] at hr
    cases hr

/-- A claim is in hand once, after a step as before. -/
theorem once_step (hI : Linked tokens s) (h : Hands app tokens s s') (n n' : Uuid)
    (slot slot' : Option Nat) (i : Nat) (hi : (s'.daemons n).claimAt slot = some i)
    (hi' : (s'.daemons n').claimAt slot' = some i) : n = n' ∧ slot = slot' := by
  rcases claimAt_cases h hi with hold | ⟨hpend, hslot, hgone⟩ | ⟨hslot, hnew, hothers, -⟩
  · rcases claimAt_cases h hi' with hold' | ⟨hpend', hslot', hgone'⟩ | ⟨hslot', hnew', -, -⟩
    · exact hI.once n n' slot slot' i hold hold'
    · obtain ⟨rfl, rfl⟩ := hI.once n n' slot none i hold hpend'
      rw [show (s'.daemons n).claimAt none = none from hgone'] at hi
      cases hi
    · exact absurd (hI.lt_next hold) (by omega)
  · have hpend₀ : (s.daemons n).claimAt none = some i := hpend
    rcases claimAt_cases h hi' with hold' | ⟨hpend', hslot', -⟩ | ⟨hslot', hnew', -, -⟩
    · obtain ⟨rfl, rfl⟩ := hI.once n n' none slot' i hpend₀ hold'
      rw [show (s'.daemons n).claimAt none = none from hgone] at hi'
      cases hi'
    · obtain ⟨rfl, -⟩ := hI.once n n' none none i hpend₀ hpend'
      exact ⟨rfl, hslot.trans hslot'.symm⟩
    · exact absurd (hI.lt_next hpend₀) (by omega)
  · by_cases hn : n' = n
    · subst hn
      rcases claimAt_cases h hi' with hold' | ⟨hpend', -, -⟩ | ⟨hslot', -, -, -⟩
      · exact absurd (hI.lt_next hold') (by omega)
      · exact absurd (hI.lt_next (show (s.daemons n').claimAt none = some i from hpend')) (by omega)
      · exact ⟨rfl, hslot.trans hslot'.symm⟩
    · rw [hothers n' hn] at hi'
      exact absurd (hI.lt_next hi') (by omega)

theorem linked_step (hI : Linked tokens s) (h : Happens app tokens s m s') :
    Linked tokens s' := by
  have hands := hands_of_happens h
  refine ⟨fun n k r' hk => ?_, fun n i hi => ?_, once_step hI hands, fun i th' bearer hi hreq => ?_,
    fun i th' bearer id p hi hreq => ?_⟩
  · rcases run_cases hands hk with ⟨r, hk, hr⟩ | ⟨i, th, hturn, hi, hprog, -, hr, -⟩
    · obtain ⟨th, hth, hreq, hprog⟩ := hI.run n k r hk
      obtain ⟨th', hth', hreq', hkept⟩ := thread_onward h hth
      exact ⟨th', hr.claim ▸ hth', hreq'.trans hreq,
        by rw [hkept (by rw [hprog]; rfl), hprog, hr.job]⟩
    · obtain ⟨th₀, hth₀, hreq⟩ := hI.pending n i (by rw [Daemon.pendingClaim, hturn])
      rw [hi, Option.some.injEq] at hth₀
      subst hth₀
      obtain ⟨th', hth', hreq', hkept⟩ := thread_onward h hi
      have hclaim : r'.claim = i := congrArg JobRun.claim hr
      exact ⟨th', hclaim ▸ hth', hreq'.trans hreq, (hkept (by rw [hprog]; rfl)).trans hprog⟩
  · rcases claimAt_cases hands (show (s'.daemons n).claimAt none = some i from hi) with
      hold | ⟨-, hslot, -⟩ | ⟨-, -, -, hth⟩
    · obtain ⟨th, hth, hreq⟩ := hI.pending n i hold
      obtain ⟨th', hth', hreq', -⟩ := thread_onward h hth
      exact ⟨th', hth', hreq'.trans hreq⟩
    · cases hslot
    · exact hth
  · rcases thread_origin h hi with ⟨th, hth, hsame⟩ |
      ⟨hnew, hf | ⟨n, hn⟩ | ⟨n, hn, hturn⟩ | ⟨n, k, r, report, p, -, -, -, hn⟩⟩
    · obtain ⟨n, rfl, ha⟩ := hI.claim i th bearer hth (hsame ▸ hreq)
      obtain ⟨th'', hth'', -, hkept⟩ := thread_onward h hth
      rw [hi, Option.some.injEq] at hth''
      subst hth''
      exact ⟨n, rfl, accounts_step hands hth hkept ha⟩
    · rw [hreq] at hf
      cases hf
    · rw [hreq] at hn
      cases hn
    · rw [hreq] at hn
      cases hn
      exact ⟨n, rfl, Or.inl (by rw [Daemon.pendingClaim, hturn, hnew])⟩
    · rw [hreq] at hn
      cases hn
  · rcases thread_origin h hi with ⟨th, hth, hsame⟩ |
      ⟨hnew, hf | ⟨n, hn⟩ | ⟨n, hn, hturn⟩ | ⟨n, k, r, report, p', hk, hstage, -, hn⟩⟩
    · obtain ⟨n, k, r, hk, hid, hclosed⟩ := hI.complete i th bearer id p hth (hsame ▸ hreq)
      obtain ⟨r', hk', hr⟩ := run_after hands hk
      exact ⟨n, k, r', hk', by rw [hr.job, hid], hr.closed hclosed⟩
    · rw [hreq] at hf
      cases hf
    · rw [hreq] at hn
      cases hn
    · rw [hreq] at hn
      cases hn
    · rw [hreq] at hn
      cases hn
      exact ⟨n, k, r, hk, rfl, by rw [JobRun.isOpen, hstage]⟩

/-- A fleet in which no process has been started and no request has arrived. -/
structure Unstarted (s : Fleet) : Prop where
  threads : s.server.threads = []
  daemons : ∀ n, s.daemons n = {}

theorem linked_of_unstarted (h : Unstarted s) : Linked tokens s where
  run n k r hk := by rw [h.daemons] at hk; simp at hk
  pending n i hi := by rw [h.daemons] at hi; cases hi
  once n n' slot slot' i hi := by
    rw [h.daemons] at hi
    cases slot with
    | none => cases hi
    | some k => simp [Daemon.claimAt] at hi
  claim i th bearer hi := by rw [h.threads] at hi; simp at hi
  complete i th bearer id p hi := by rw [h.threads] at hi; simp at hi

/-- **Requests and goroutines go together** in every state. -/
theorem linked_of_run {T : Fleet → FleetAct → Prop} {s₀ : Fleet} (h₀ : Unstarted s₀)
    (h : Run (Fleet.step app tokens) T s₀ s) : Linked tokens s :=
  h.invariant (Linked tokens) (fun _ _ _ hI _ hs => linked_step hI (happens_of_step hs))
    (linked_of_unstarted h₀)

end GpuNetwork.Agent
