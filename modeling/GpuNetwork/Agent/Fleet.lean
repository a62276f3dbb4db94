import GpuNetwork.Agent.Daemon
import GpuNetwork.ControlPlane.Server
import GpuNetwork.Store.Machine
import Mathlib.Logic.Function.Basic

/-!
# The control plane and its daemons

The control plane answers any number of requests at once, and one daemon for each node takes
its steps beside it.  A call of a daemon reaches the control plane as a request, whenever that
may be, and its answer reaches the daemon if the daemon still waits for it.

* `Fleet`, `FleetAct` — a state of the whole, and what can happen in it.
* `Fleet.step` — one step, as a function.
* `Happens`, `happens_of_step` — the cases of a step.
* `server_cases`, `reach_of_run` — what the control plane sees of it.
-/

namespace GpuNetwork.Agent

open ReadCommitted Machine

/-- The control plane and the daemon of every node. -/
structure Fleet where
  server : System
  daemons : Uuid → Daemon

/-- What can happen next. -/
inductive FleetAct where
  /-- The control plane takes a step, or a request of somebody else arrives. -/
  | server (l : Label Request)
  | daemon (n : Uuid) (a : DaemonAct)
  /-- The call of the loop reaches the control plane. -/
  | sends (n : Uuid)
  /-- The loop gets its answer. -/
  | receives (n : Uuid)
  /-- The call of `complete` reaches the control plane. -/
  | posts (n : Uuid) (k : Nat)
  /-- `complete` gets its answer. -/
  | confirms (n : Uuid) (k : Nat)

/-- The requests that only daemons make. -/
def ofDaemon : Request → Bool
  | .heartbeat _ _ => true
  | .claimJob _ => true
  | .completeJob _ _ _ => true
  | _ => false

/-- The step is not the arrival of a request of a daemon. -/
def foreign : Label Request → Bool
  | .spawn req => !ofDaemon req
  | _ => true

/-- The validation of the body of `complete`. -/
def completeRequest (r : Report) : Option CompleteJobRequest :=
  if hcode : -1024 ≤ r.exitCode ∧ r.exitCode ≤ 1024 then
    if hmessage : ∀ m ∈ r.errorMessage, m.length ≤ 4000 then
      some ⟨r.exitCode, r.errorMessage, hcode, hmessage⟩
    else none
  else none

/-- The goroutine of a daemon enters a stage. -/
def Daemon.enter (d : Daemon) (k : Nat) (r : JobRun) (stage : Stage) : Daemon :=
  { d with runs := d.runs.set k { r with stage } }

namespace Fleet

/-- The daemon of the node changes. -/
def put (s : Fleet) (n : Uuid) (d : Daemon) : Fleet :=
  { s with daemons := Function.update s.daemons n d }

variable (app : App)

/-- A request arrives. -/
def arrive (s : Fleet) (req : Request) : Fleet :=
  { s with
    server := { s.server with
      threads := s.server.threads ++ [⟨req, handle app req, {}, none⟩] } }

/-- The request that arrives next. -/
def next (s : Fleet) : Nat := s.server.threads.length

variable (tokens : Uuid → Str)

/-- One step; `none` when it cannot be taken.  Every daemon has the token of its node. -/
def step (s : Fleet) : FleetAct → Option Fleet
  | .server l =>
    if foreign l then
      (ReadCommitted.step (controlPlane app) s.server l).map fun t => { s with server := t }
    else none
  | .daemon n a => ((s.daemons n).act a).map (s.put n)
  | .sends n =>
    match (s.daemons n).turn with
    | .heartbeat none =>
      some ((s.arrive app (.heartbeat (some (tokens n)) n)).put n
        { s.daemons n with turn := .heartbeat (some s.next) })
    | .claim none =>
      some ((s.arrive app (.claimJob (some (tokens n)))).put n
        { s.daemons n with turn := .claim (some s.next) })
    | _ => none
  | .receives n =>
    match (s.daemons n).turn with
    | .heartbeat (some i) =>
      match (s.server.threads[i]?).map Thread.prog with
      | some (.ret (.heartbeat _ c)) => some (s.put n ((s.daemons n).afterHeartbeat c))
      | some (.throw _) => some (s.put n { s.daemons n with turn := .idle })
      | _ => none
    | .claim (some i) =>
      match (s.server.threads[i]?).map Thread.prog with
      | some (.ret (.assignment jobId image command limit)) =>
        some (s.put n ((s.daemons n).launch ⟨jobId, image, command, limit⟩ i))
      | some (.ret .noContent) => some (s.put n { s.daemons n with turn := .idle })
      | some (.throw _) =>
        some (s.put n { s.daemons n with turn := .idle, lost := (s.daemons n).lost ++ [i] })
      | _ => none
    | _ => none
  | .posts n k =>
    match (s.daemons n).runs[k]? with
    | some r =>
      match r.stage with
      | .completing report none =>
        match completeRequest report with
        | some p =>
          some ((s.arrive app (.completeJob (some (tokens n)) r.job.jobId p)).put n
            ((s.daemons n).enter k r (.completing report (some s.next))))
        -- the validation answers by itself
        | none => some (s.put n ((s.daemons n).enter k r (.completed false)))
      | _ => none
    | none => none
  | .confirms n k =>
    match (s.daemons n).runs[k]? with
    | some r =>
      match r.stage with
      | .completing _ (some i) =>
        match (s.server.threads[i]?).map Thread.prog with
        | some (.ret _) => some (s.put n ((s.daemons n).enter k r (.completed true)))
        | some (.throw _) => some (s.put n ((s.daemons n).enter k r (.completed false)))
        | _ => none
      | _ => none
    | none => none

end Fleet

/-! ## The cases of a step -/

/-- What happens in a step. -/
inductive Happens (app : App) (tokens : Uuid → Str) (s : Fleet) : FleetAct → Fleet → Prop
  | server {l : Label Request} {t : System} : foreign l = true →
      ReadCommitted.step (controlPlane app) s.server l = some t →
      Happens app tokens s (.server l) { s with server := t }
  | daemon {n : Uuid} {a : DaemonAct} {d : Daemon} : (s.daemons n).act a = some d →
      Happens app tokens s (.daemon n a) (s.put n d)
  | sendsHeartbeat {n : Uuid} : (s.daemons n).turn = .heartbeat none →
      Happens app tokens s (.sends n) ((s.arrive app (.heartbeat (some (tokens n)) n)).put n
        { s.daemons n with turn := .heartbeat (some s.next) })
  | sendsClaim {n : Uuid} : (s.daemons n).turn = .claim none →
      Happens app tokens s (.sends n) ((s.arrive app (.claimJob (some (tokens n)))).put n
        { s.daemons n with turn := .claim (some s.next) })
  | hears {n : Uuid} {i : Nat} {th : Pending} {t : Time} {c : Option Uuid} :
      (s.daemons n).turn = .heartbeat (some i) → s.server.threads[i]? = some th →
      th.prog = .ret (.heartbeat t c) →
      Happens app tokens s (.receives n) (s.put n ((s.daemons n).afterHeartbeat c))
  | hearsError {n : Uuid} {i : Nat} : (s.daemons n).turn = .heartbeat (some i) →
      Happens app tokens s (.receives n) (s.put n { s.daemons n with turn := .idle })
  | launches {n : Uuid} {i : Nat} {th : Pending} {job : JobAssignment} :
      (s.daemons n).turn = .claim (some i) → s.server.threads[i]? = some th →
      th.prog = .ret (.assignment job.jobId job.dockerImage job.command job.maxDurationSeconds) →
      Happens app tokens s (.receives n) (s.put n ((s.daemons n).launch job i))
  | findsNoJob {n : Uuid} {i : Nat} {th : Pending} :
      (s.daemons n).turn = .claim (some i) → s.server.threads[i]? = some th →
      th.prog = .ret .noContent →
      Happens app tokens s (.receives n) (s.put n { s.daemons n with turn := .idle })
  | claimsInVain {n : Uuid} {i : Nat} : (s.daemons n).turn = .claim (some i) →
      Happens app tokens s (.receives n)
        (s.put n { s.daemons n with turn := .idle, lost := (s.daemons n).lost ++ [i] })
  | posts {n : Uuid} {k : Nat} {r : JobRun} {report : Report} {p : CompleteJobRequest} :
      (s.daemons n).runs[k]? = some r → r.stage = .completing report none →
      completeRequest report = some p →
      Happens app tokens s (.posts n k)
        ((s.arrive app (.completeJob (some (tokens n)) r.job.jobId p)).put n
          ((s.daemons n).enter k r (.completing report (some s.next))))
  | isRejected {n : Uuid} {k : Nat} {r : JobRun} {report : Report} :
      (s.daemons n).runs[k]? = some r → r.stage = .completing report none →
      Happens app tokens s (.posts n k) (s.put n ((s.daemons n).enter k r (.completed false)))
  | isAccepted {n : Uuid} {k i : Nat} {r : JobRun} {report : Report} {th : Pending}
      {response : Response} :
      (s.daemons n).runs[k]? = some r → r.stage = .completing report (some i) →
      s.server.threads[i]? = some th → th.prog = .ret response →
      Happens app tokens s (.confirms n k) (s.put n ((s.daemons n).enter k r (.completed true)))
  | isRefused {n : Uuid} {k i : Nat} {r : JobRun} {report : Report} :
      (s.daemons n).runs[k]? = some r → r.stage = .completing report (some i) →
      Happens app tokens s (.confirms n k) (s.put n ((s.daemons n).enter k r (.completed false)))

variable {app : App} {tokens : Uuid → Str} {s s' : Fleet} {m : FleetAct}

theorem prog_of_map {i : Nat} {x : Handler Response}
    (h : (s.server.threads[i]?).map Thread.prog = some x) :
    ∃ th : Pending, s.server.threads[i]? = some th ∧ th.prog = x :=
  Option.map_eq_some_iff.1 h

/-- **The cases of a step.** -/
theorem happens_of_step (h : Fleet.step app tokens s m = some s') : Happens app tokens s m s' := by
  cases m with
  | server l =>
    simp only [Fleet.step] at h
    split at h
    · rename_i hforeign
      obtain ⟨t, ht, rfl⟩ := Option.map_eq_some_iff.1 h
      exact .server hforeign ht
    · cases h
  | daemon n a =>
    obtain ⟨d, hd, rfl⟩ := Option.map_eq_some_iff.1 h
    exact .daemon hd
  | sends n =>
    simp only [Fleet.step] at h
    split at h
    · rename_i hturn
      cases h
      exact .sendsHeartbeat hturn
    · rename_i hturn
      cases h
      exact .sendsClaim hturn
    · cases h
  | receives n =>
    simp only [Fleet.step] at h
    split at h
    · rename_i i hturn
      split at h
      · rename_i hprog
        obtain ⟨th, hi, hprog⟩ := prog_of_map hprog
        cases h
        exact .hears hturn hi hprog
      · cases h
        exact .hearsError hturn
      · cases h
    · rename_i i hturn
      split at h
      · rename_i jobId image command limit hprog
        obtain ⟨th, hi, hprog⟩ := prog_of_map hprog
        cases h
        exact .launches hturn hi hprog
      · rename_i hprog
        obtain ⟨th, hi, hprog⟩ := prog_of_map hprog
        cases h
        exact .findsNoJob hturn hi hprog
      · cases h
        exact .claimsInVain hturn
      · cases h
    · cases h
  | posts n k =>
    simp only [Fleet.step] at h
    split at h
    · rename_i r hk
      split at h
      · rename_i report hstage
        split at h
        · rename_i p hp
          cases h
          exact .posts hk hstage hp
        · cases h
          exact .isRejected hk hstage
      · cases h
    · cases h
  | confirms n k =>
    simp only [Fleet.step] at h
    split at h
    · rename_i r hk
      split at h
      · rename_i report i hstage
        split at h
        · rename_i response hprog
          obtain ⟨th, hi, hprog⟩ := prog_of_map hprog
          cases h
          exact .isAccepted hk hstage hi hprog
        · cases h
          exact .isRefused hk hstage
        · cases h
      · cases h
    · cases h

/-! ## What the control plane sees -/

/-- The control plane stays as it is or takes a step of its own. -/
theorem server_cases (h : Happens app tokens s m s') : s'.server = s.server ∨
    ∃ l, ReadCommitted.step (controlPlane app) s.server l = some s'.server ∧
      (m = .server l ∨ ∃ req, l = .spawn req) := by
  cases h with
  | server hforeign ht => exact Or.inr ⟨_, ht, Or.inl rfl⟩
  | sendsHeartbeat hturn => exact Or.inr ⟨.spawn _, rfl, Or.inr ⟨_, rfl⟩⟩
  | sendsClaim hturn => exact Or.inr ⟨.spawn _, rfl, Or.inr ⟨_, rfl⟩⟩
  | posts hk hstage => exact Or.inr ⟨.spawn _, rfl, Or.inr ⟨_, rfl⟩⟩
  | _ => exact Or.inl rfl

/-- A run of the whole is a run of the control plane. -/
theorem reach_of_run {T : Fleet → FleetAct → Prop} {s₀ : Fleet}
    (h : Run (Fleet.step app tokens) T s₀ s) :
    Reach (controlPlane app) anyTerms s₀.server s.server := by
  refine h.invariant (fun s => Reach (controlPlane app) anyTerms s₀.server s.server)
    (fun s m s' hI _ hs => ?_) Reach.refl
  rcases server_cases (happens_of_step hs) with he | ⟨l, hl, -⟩
  · rw [he]; exact hI
  · exact hI.tail hl trivial

end GpuNetwork.Agent
