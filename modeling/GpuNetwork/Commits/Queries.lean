import GpuNetwork.Commits.Statements

/-!
# Requests that only read

They issue no statement that writes, and so commit nothing.

* `reads_currentUser`, `reads_requireAdmin`, … — the statements of the handlers.
* `reads_listUsers`, `safe_listUsers`, … — the handlers, and the obligations on them.
-/

namespace GpuNetwork

open ReadCommitted ReadCommitted.Spec

variable {app : App} {rely : Rely} {refusals : Prop} {α : Type}

/-- The program only reads. -/
abbrev Reads (x : Handler α) : Prop := x.Emits fun q => q.reads = true

/-! ## Statements -/

theorem reads_orRaise (x : Option α) : Reads (orRaise x) := by
  cases x <;> trivial

theorem reads_selectUser (w : Cond) : Reads (selectUser w) := by
  refine Prog.emits_bind (Prog.emits_exec rfl) fun r => ?_
  split <;> trivial

theorem reads_selectJob (w : Cond) : Reads (selectJob w) := by
  refine Prog.emits_bind (Prog.emits_exec rfl) fun r => ?_
  split <;> trivial

theorem reads_selectNode (w : Cond) : Reads (selectNode w) := by
  refine Prog.emits_bind (Prog.emits_exec rfl) fun r => ?_
  split <;> trivial

theorem reads_selectApiKey (w : Cond) : Reads (selectApiKey w) := by
  refine Prog.emits_bind (Prog.emits_exec rfl) fun r => ?_
  split <;> trivial

theorem reads_authenticateKey (token : Str) : Reads (authenticateKey app token) := by
  refine Prog.emits_bind (reads_selectApiKey _) fun k => ?_
  cases k with
  | none => trivial
  | some k =>
    dsimp only
    split
    · trivial
    · refine Prog.emits_bind (reads_orRaise _) fun valid => ?_
      split
      · exact reads_selectUser _
      · trivial

theorem reads_currentUser (bearer : Option Str) : Reads (currentUser app bearer) := by
  cases bearer with
  | none => trivial
  | some token =>
    rw [currentUser]
    split
    · refine Prog.emits_bind (reads_authenticateKey _) fun u => ?_
      cases u <;> trivial
    · refine Prog.emits_bind (Prog.emits_exec rfl) fun now => ?_
      split
      · trivial
      · split
        · trivial
        · refine Prog.emits_bind (reads_selectUser _) fun u => ?_
          cases u <;> trivial

theorem reads_requireAdmin (bearer : Option Str) : Reads (requireAdmin app bearer) := by
  refine Prog.emits_bind (reads_currentUser _) fun u => ?_
  split <;> trivial

theorem reads_authenticateAgent (token : Str) : Reads (authenticateAgent app token) := by
  unfold authenticateAgent
  split
  · refine Prog.emits_bind (reads_selectNode _) fun n => ?_
    cases n with
    | none => trivial
    | some n =>
      dsimp only
      split
      · trivial
      · refine Prog.emits_bind (reads_orRaise _) fun valid => ?_
        split <;> trivial
  · trivial

theorem reads_currentNode (bearer : Option Str) : Reads (currentNode app bearer) := by
  cases bearer with
  | none => trivial
  | some token =>
    refine Prog.emits_bind (reads_authenticateAgent token) fun n => ?_
    cases n <;> trivial

theorem reads_cursorBound (cursor : Option Str) : Reads (cursorBound app cursor) := by
  unfold cursorBound
  split
  · trivial
  · trivial
  · split
    · dsimp only
      split <;> trivial
    all_goals trivial

theorem reads_sendTexts (texts : List Str) : Reads (sendTexts texts) := by
  unfold sendTexts
  split <;> trivial

theorem reads_listAudit (f : AuditFilter) (cursor : Option (Time × Uuid)) (limit : Nat) :
    Reads (listAudit app f cursor limit) :=
  Prog.emits_bind (reads_sendTexts _) fun _ => ⟨rfl, fun _ => ⟨rfl, fun _ => trivial⟩⟩

theorem reads_getJobForUser (owner : User) (jobId : Uuid) : Reads (getJobForUser owner jobId) := by
  refine Prog.emits_bind (reads_selectJob _) fun j => ?_
  cases j with
  | none => trivial
  | some j =>
    dsimp only
    split <;> trivial

/-- The job in a row. -/
def rowJob : Option Row → Option Job
  | some (.job j) => some j
  | _ => none

theorem selectJob_bind {α : Type} (wh : Cond) (f : Option Job → Handler α) :
    (selectJob wh >>= f) = .stmt (.select wh) fun r => f (rowJob r) := by
  refine congrArg (Prog.stmt (Stmt.select wh)) (funext fun r => ?_)
  cases r with
  | none => rfl
  | some r => cases r <;> rfl

/-- The row under a key, whichever is picked. -/
theorem pickRow_byKey (db : Database) (k : Key) (pick : Nat) :
    pickRow pick (matching db (.byKey k)) = db.get k := by
  rcases pickRow_cases pick (matching db (.byKey k)) with ⟨hpick, hnone⟩ | ⟨r, hr, hpick⟩
  · rw [hpick, eq_comm, Db.get_eq_none_iff]
    intro r hr hk
    have hmem : r ∈ matching db (.byKey k) := mem_matching.2 ⟨hr, decide_eq_true hk⟩
    rw [hnone] at hmem
    cases hmem
  · obtain ⟨hmem, hkey⟩ := mem_matching.1 hr
    have hk : r.key = k := of_decide_eq_true hkey
    rw [hpick, ← hk]
    exact (Db.get_of_mem hmem).symm

/-! ## Handlers -/

theorem reads_listUsers (caller : Caller) (status emailQuery cursor : Option Str) (limit : Nat) :
    Reads (listUsers app caller status emailQuery cursor limit) := by
  refine Prog.emits_bind (reads_requireAdmin _) fun admin => ?_
  refine Prog.emits_bind (Prog.emits_bind (reads_cursorBound _) fun decoded => ?_)
    fun page => trivial
  refine Prog.emits_bind (Prog.emits_bind (reads_sendTexts _) fun _ => ?_) fun page => trivial
  exact ⟨rfl, fun rows => trivial⟩

theorem safe_listUsers (caller : Caller) (status emailQuery cursor : Option Str) (limit : Nat) :
    (platform app rely refusals).Safe (.listUsers caller status emailQuery cursor limit)
      (listUsers app caller status emailQuery cursor limit) {} := by
  exact wp_of_reads (reads_listUsers _ _ _ _ _) (fun _ _ => trivial) fun _ _ => trivial

theorem reads_getUserDetail (caller : Caller) (userId : Uuid) :
    Reads (getUserDetail app caller userId) := by
  refine Prog.emits_bind (reads_requireAdmin _) fun admin => ?_
  refine Prog.emits_bind (reads_selectUser _) fun u => ?_
  cases u with
  | none => trivial
  | some u => exact ⟨rfl, fun rows => trivial⟩

theorem safe_getUserDetail (caller : Caller) (userId : Uuid) :
    (platform app rely refusals).Safe (.getUserDetail caller userId)
      (getUserDetail app caller userId) {} := by
  exact wp_of_reads (reads_getUserDetail _ _) (fun _ _ => trivial) fun _ _ => trivial

theorem reads_getAuditEvent (caller : Caller) (eventId : Uuid) :
    Reads (getAuditEvent app caller eventId) := by
  refine Prog.emits_bind (reads_requireAdmin _) fun admin => ?_
  refine Prog.emits_bind (Prog.emits_exec rfl) fun users => ?_
  refine Prog.emits_bind (Prog.emits_exec rfl) fun r => ?_
  split <;> trivial

theorem safe_getAuditEvent (caller : Caller) (eventId : Uuid) :
    (platform app rely refusals).Safe (.getAuditEvent caller eventId)
      (getAuditEvent app caller eventId) {} := by
  exact wp_of_reads (reads_getAuditEvent _ _) (fun _ _ => trivial) fun _ _ => trivial

theorem reads_dashboard (caller : Caller) :
    Reads (dashboard app caller) := by
  refine Prog.emits_bind (reads_requireAdmin _) fun admin => ?_
  exact ⟨rfl, fun now => ⟨rfl, fun users => ⟨rfl, fun nodes => ⟨rfl, fun jobs => ⟨rfl,
    fun completed => ⟨rfl, fun failed => ⟨rfl, fun cancelled => ⟨rfl, fun ended => trivial⟩⟩⟩⟩⟩⟩⟩⟩

theorem safe_dashboard (caller : Caller) :
    (platform app rely refusals).Safe (.dashboard caller) (dashboard app caller) {} := by
  exact wp_of_reads (reads_dashboard _) (fun _ _ => trivial) fun _ _ => trivial

theorem reads_listJobs (caller : Caller) (status cursor : Option Str) (limit : Nat) :
    Reads (listJobs app caller status cursor limit) := by
  refine Prog.emits_bind (reads_currentUser _) fun owner => ?_
  refine Prog.emits_bind (Prog.emits_bind (reads_cursorBound _) fun decoded => ?_)
    fun page => trivial
  refine Prog.emits_bind (Prog.emits_bind (reads_sendTexts _) fun _ => ?_) fun page => trivial
  exact ⟨rfl, fun rows => trivial⟩

theorem safe_listJobs (caller : Caller) (status cursor : Option Str) (limit : Nat) :
    (platform app rely refusals).Safe (.listJobs caller status cursor limit)
      (listJobs app caller status cursor limit) {} := by
  exact wp_of_reads (reads_listJobs _ _ _ _) (fun _ _ => trivial) fun _ _ => trivial

theorem reads_getJob (caller : Caller) (jobId : Uuid) :
    Reads (getJob app caller jobId) := by
  refine Prog.emits_bind (reads_currentUser _) fun owner => ?_
  exact Prog.emits_bind (reads_getJobForUser _ _) fun job => trivial

theorem safe_getJob (caller : Caller) (jobId : Uuid) :
    (platform app rely refusals).Safe (.getJob caller jobId) (getJob app caller jobId) {} := by
  exact wp_of_reads (reads_getJob _ _) (fun _ _ => trivial) fun _ _ => trivial

theorem reads_getLogs (caller : Caller) (jobId : Uuid) (afterSequence : Int) (limit : Nat) :
    Reads (getLogs app caller jobId afterSequence limit) := by
  refine Prog.emits_bind (reads_currentUser _) fun owner => ?_
  refine Prog.emits_bind (reads_getJobForUser _ _) fun job => ?_
  exact ⟨rfl, fun rows => trivial⟩

theorem safe_getLogs (caller : Caller) (jobId : Uuid) (afterSequence : Int) (limit : Nat) :
    (platform app rely refusals).Safe (.getLogs caller jobId afterSequence limit)
      (getLogs app caller jobId afterSequence limit) {} := by
  exact wp_of_reads (reads_getLogs _ _ _ _) (fun _ _ => trivial) fun _ _ => trivial

end GpuNetwork
