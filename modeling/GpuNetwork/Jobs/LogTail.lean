import GpuNetwork.Agent.JobOutput
import GpuNetwork.Jobs.StateMachine
import GpuNetwork.Store.Keyset
import GpuNetwork.Store.Machine
import GpuNetwork.Store.Unique
import Mathlib.Data.List.Pairwise

/-!
# Reading a log while it is written

A renter follows the log of a job by asking, again and again, for the lines behind the last
one received.  Meanwhile the pump of the agent posts the lines in batches, each a
transaction of its own, and nothing makes the batches commit in the order of their lines.

* `LogTail`, `LogTail.step` — the pump, the control plane and the reader.
* `uniqueLines_of_reach` — no two lines of a job share a number.
* `InOrder` — no batch commits behind the reader's back.
* `MissesNothing` — an empty answer means that the reader has everything.
-/

namespace GpuNetwork

open ReadCommitted ReadCommitted.Spec

variable {app : App} {rely : Rely} {refusals : Prop} {db : Database} {req : Request}
  {tx : Transaction}

/-! ## What a commit does to a log -/

/-- Only `append_logs` writes lines, and it only adds them. -/
theorem logWrite_of_shape (h : Shape app req tx) {w : Write Row Key} (hw : w ∈ tx.writes)
    {id : Uuid} (ht : w.target = .jobLog id) :
    ∃ bearer jobId entries l, req = .pushLogs bearer jobId entries ∧ w = .insert (.jobLog l) ∧
      l.jobId = jobId ∧ 0 ≤ l.sequence := by
  -- the writes of the other handlers go to other tables
  have hother : ∀ {ws : List (Write Row Key)}, tx.writes = ws →
      (∀ v ∈ ws, v.target ≠ .jobLog id) → False := by
    intro ws he hne
    exact hne w (he ▸ hw) ht
  have hflush : ∀ {old new : Row}, old.key ≠ .jobLog id →
      ∀ v ∈ flushed old new, v.target ≠ .jobLog id := by
    intro old new hne v hv
    rw [target_of_mem_flushed hv]
    exact hne
  cases h with
  | aside ha =>
    cases ha with
    | pushLogs hn hread hassign hws hlogs hseq =>
      rw [hws] at hw
      obtain ⟨l, hl, rfl⟩ := List.mem_map.1 hw
      obtain ⟨hjob, e, he, -, -, hsequence⟩ := hlogs l hl
      exact ⟨_, _, _, l, rfl, rfl, hjob, hsequence ▸ e.sequence_nonneg⟩
    | login hws _ _ => exact (hother hws (by simp [Write.target, Row.key])).elim
    | listAuditEvents hws _ _ => exact (hother hws (by simp [Write.target, Row.key])).elim
    | generateKey hws _ _ => exact (hother hws (by simp [Write.target, Row.key])).elim
    | revokeKey hws _ _ => exact (hother hws (by simp [Write.target, Row.key])).elim
    | createClaimToken hws _ _ _ => exact (hother hws (by simp [Write.target, Row.key])).elim
  | signup hws _ _ _ => exact (hother hws (by simp [Write.target, Row.key])).elim
  | sets _ _ _ _ hws _ _ =>
    refine (hother hws fun v hv => ?_).elim
    rcases List.mem_append.1 hv with hv | hv
    · exact hflush (by simp [Row.key]) v hv
    · rw [List.mem_singleton.1 hv]
      simp [Write.target, Row.key]
  | registerNode _ _ _ _ _ _ _ _ hws _ =>
    exact (hother hws (by simp [Write.target, Row.key])).elim
  | heartbeat _ _ hws => exact (hother hws (hflush (by simp [Row.key]))).elim
  | pushMetrics _ _ hups hws =>
    refine (hother hws fun v hv => ?_).elim
    rcases List.mem_append.1 hv with hv | hv
    · obtain ⟨g, hg⟩ := hups v hv
      simp [hg]
    · exact hflush (by simp [Row.key]) v hv
  | drain _ _ _ _ hws _ => exact (hother hws (by simp [Write.target, Row.key])).elim
  | drained _ _ _ hws => exact (hother hws (by simp)).elim
  | undrain _ _ _ hws _ => exact (hother hws (by simp [Write.target, Row.key])).elim
  | deleteNode _ _ _ _ _ hws _ =>
    refine (hother hws fun v hv hid => ?_).elim
    rcases List.mem_cons.1 hv with rfl | hv
    · cases hid
    rcases List.mem_append.1 hv with hv | hv
    · -- a line does not refer to a node
      obtain ⟨r, hr, rfl⟩ := List.mem_map.1 hv
      rw [target_unrefWrite] at hid
      have hrefs := of_decide_eq_true (List.mem_filter.1 hr).2
      cases r with
      | jobLog l => simp [Schema.refs, Row.refs] at hrefs
      | _ => cases hid
    · rw [List.mem_singleton.1 hv] at hid
      cases hid
  | deletedNode _ _ _ _ hws _ => exact (hother hws (by simp [Write.target, Row.key])).elim
  | submitJob _ _ _ _ _ hws _ => exact (hother hws (by simp [Write.target, Row.key])).elim
  | claimJob _ _ _ _ _ hws _ => exact (hother hws (by simp [Write.target, Row.key])).elim
  | completeJob _ _ _ _ _ _ _ hws _ =>
    refine (hother hws fun v hv => ?_).elim
    rcases List.mem_cons.1 hv with rfl | hv
    · simp [Write.target, Row.key]
    rcases List.mem_append.1 hv with hv | hv
    · obtain ⟨u, hu⟩ := target_of_mem_billWrites hv
      simp [hu]
    · rw [List.mem_singleton.1 hv]
      simp [Write.target, Row.key]
  | cancelQueued _ _ _ _ hws _ => exact (hother hws (by simp [Write.target, Row.key])).elim
  | requestCancel _ _ _ _ _ hws _ => exact (hother hws (by simp [Write.target, Row.key])).elim
  | cancelAgain _ _ _ _ hws _ => exact (hother hws (by simp [Write.target, Row.key])).elim

/-- A commit leaves the lines that are stored. -/
theorem jobLog_stays (h : Shape app req tx) {l : JobLog} (hl : .jobLog l ∈ db.rows) :
    .jobLog l ∈ (tx.view db).rows := by
  refine Db.mem_of_get (k := .jobLog l.id) ?_
  refine view_rel (R := fun o o' => o = some (Row.jobLog l) → o' = some (Row.jobLog l))
    (fun o ho => ho) (fun a b c hab hbc ha => hbc (hab ha)) (fun w hw o ho => ?_) db
    (Db.get_of_mem hl)
  subst ho
  by_cases ht : w.target = .jobLog l.id
  · obtain ⟨bearer, jobId, entries, x, -, rfl, -, -⟩ := logWrite_of_shape h hw ht
    rw [Write.on_insert ht]
    rfl
  · rw [Write.on_of_ne ht]

/-- A line that is stored after a commit was so before, or the commit has added it. -/
theorem jobLog_of_view (h : Shape app req tx) {l : JobLog} (hl : .jobLog l ∈ (tx.view db).rows) :
    .jobLog l ∈ db.rows ∨ ∃ bearer entries, req = .pushLogs bearer l.jobId entries ∧
      .insert (.jobLog l) ∈ tx.writes ∧ 0 ≤ l.sequence := by
  have hrel := view_rel (k := .jobLog l.id)
    (R := fun o o' => o' = some (Row.jobLog l) → o = some (Row.jobLog l) ∨
      ∃ bearer entries, req = .pushLogs bearer l.jobId entries ∧
        .insert (.jobLog l) ∈ tx.writes ∧ 0 ≤ l.sequence)
    (fun o ho => Or.inl ho) (fun a b c hab hbc hc => ?_) (fun w hw o ho => ?_) db
    (Db.get_of_mem hl)
  · exact hrel.imp_left Db.mem_of_get
  · rcases hbc hc with hb | hnew
    · exact hab hb
    · exact Or.inr hnew
  · by_cases ht : w.target = .jobLog l.id
    · obtain ⟨bearer, jobId, entries, x, rfl, rfl, rfl, hseq⟩ := logWrite_of_shape h hw ht
      rw [Write.on_insert ht] at ho
      cases o with
      | none =>
        cases ho
        exact Or.inr ⟨bearer, entries, rfl, hw, hseq⟩
      | some r => exact Or.inl ho
    · rw [Write.on_of_ne ht] at ho
      exact Or.inl ho

/-! ## The numbers of the lines -/

/-- A line of the job. -/
def LineOf (jobId : Uuid) (r : Row) : Prop := ∃ l, r = .jobLog l ∧ l.jobId = jobId

/-- A request that posts lines of the job. -/
def Posts (jobId : Uuid) (req : Request) : Prop :=
  ∃ bearer entries, req = .pushLogs bearer jobId entries

theorem insertsOnly_of_reads {α : Type} {x : Handler α} (h : Reads x) :
    x.Emits fun q => q.insertsOnly = true :=
  Prog.Emits.mono (fun _ hq => Stmt.insertsOnly_of_reads hq) h

theorem insertsOnly_logRows (jobId : Uuid) (t : Time) (entries : List JobLogEntryIn) :
    (logRows jobId t entries).Emits fun q => q.insertsOnly = true := by
  induction entries with
  | nil => trivial
  | cons e es ih =>
    refine Prog.emits_bind (Prog.emits_exec rfl) fun id => ?_
    exact Prog.emits_bind ih fun rows => trivial

theorem insertsOnly_pushLogs (bearer : Option Str) (jobId : Uuid)
    (entries : List JobLogEntryIn) :
    (pushLogs app bearer jobId entries).Emits fun q => q.insertsOnly = true := by
  refine Prog.emits_bind (insertsOnly_of_reads (reads_currentNode bearer)) fun n => ?_
  split
  · trivial
  refine Prog.emits_bind (insertsOnly_of_reads (reads_selectJob _)) fun j => ?_
  cases j with
  | none => trivial
  | some j =>
    dsimp only
    split
    · trivial
    refine Prog.emits_bind ?_ fun n => ⟨rfl, fun _ => trivial⟩
    unfold appendLogs
    split
    · trivial
    · refine Prog.emits_bind (Prog.emits_exec rfl) fun t => ?_
      exact Prog.emits_bind (insertsOnly_logRows _ _ _) fun rows => Prog.emits_exec rfl

/-- What `append_logs` commits. -/
theorem shape_of_pushLogs {bearer : Option Str} {jobId : Uuid} {entries : List JobLogEntryIn}
    (h : Shape app (.pushLogs bearer jobId entries) tx) :
    ∃ logs : List JobLog, tx.writes = logs.map (fun l => .insert (.jobLog l)) ∧
      (∀ l ∈ logs, l.jobId = jobId) ∧ logs.Pairwise fun a b => a.sequence ≠ b.sequence := by
  cases h with
  | aside ha =>
    cases ha with
    | pushLogs hn hread hassign hws hlogs hseq =>
      exact ⟨_, hws, fun l hl => (hlogs l hl).1, hseq⟩
  | sets hs => cases hs
  | drain hd => cases hd
  | drained hd => cases hd
  | cancelQueued hc => cases hc
  | requestCancel hc => cases hc
  | cancelAgain hc => cases hc

/-- The lines of a job are inserted by `append_logs` under the unique constraint. -/
theorem inserts_lines (app : App) (jobId : Uuid) :
    Inserts (onward app) (controlPlane app) (LineOf jobId) (Posts jobId) := by
  refine ⟨?_, ?_, ?_⟩
  · rintro req ⟨bearer, entries, rfl⟩
    exact insertsOnly_pushLogs bearer jobId entries
  · rintro db req tx hcom x hx ⟨l, rfl, rfl⟩
    rcases jobLog_of_view hcom.shape hx with hold | ⟨bearer, entries, hreq, hw, -⟩
    · exact Or.inl hold
    · exact Or.inr ⟨⟨bearer, entries, hreq⟩, mem_inserted.2 hw⟩
  · rintro req tx hshape ⟨bearer, entries, rfl⟩ a ha b hb hab
    obtain ⟨logs, hw, hjob, hseq⟩ := shape_of_pushLogs hshape
    rw [mem_inserted, hw, List.mem_map] at ha hb
    obtain ⟨x, hx, he⟩ := ha
    cases he
    obtain ⟨y, hy, he⟩ := hb
    cases he
    have hsymm : Std.Symm fun a b : JobLog => a.sequence ≠ b.sequence := ⟨fun _ _ => Ne.symm⟩
    have hne : x.sequence ≠ y.sequence :=
      hseq.forall hx hy fun he => hab (congrArg Row.jobLog he)
    show (decide (x.jobId = y.jobId) && decide (x.sequence = y.sequence)) = false
    simp [hne]

/-! ## The pump, the control plane and the reader -/

/-- The batch that a step of the agent posts. -/
def Agent.Pump.posts (p : Agent.Pump) : Agent.Act → List (List Agent.LogEntry)
  | .flush => if p.loop = .ticked ∧ p.buf ≠ [] then [p.buf] else []
  | .finalFlush => if p.tail = .cancelled ∧ p.buf ≠ [] then [p.buf] else []
  | _ => []

/-- The log of a job between the agent that writes it and a renter who reads it. -/
structure LogTail where
  pump : Agent.Pump := {}
  /-- The batches that were posted and have not reached the control plane. -/
  posted : List (List Agent.LogEntry) := []
  sys : System
  /-- What the reader has received. -/
  received : List JobLog := []

/-- What happens next. -/
inductive LogTail.Act where
  | agent (a : Agent.Act)
  /-- A batch reaches the control plane. -/
  | arrive (i : Nat)
  | serve (l : Label Request)
  | poll (limit : Nat)

/-- The largest sequence the reader has received, at first -1. -/
def watermark (received : List JobLog) : Int :=
  received.foldr (fun l mark => max l.sequence mark) (-1)

/-- The rows of a batch that the control plane accepts and the database can store. -/
def entriesIn? (batch : List Agent.LogEntry) : Option (List JobLogEntryIn) :=
  (batch.mapM Agent.entryIn?).filter fun entries => entries.all Agent.storable

namespace LogTail

/-- What a poll returns: the listing with which `get_logs_for_user` ends. -/
def page (jobId : Uuid) (w : LogTail) (limit : Nat) : Option (List JobLog) :=
  match (listAfter jobId (watermark w.received) limit).answer
      ⟨[], [], w.sys.clock, w.sys.clock, 0⟩ w.sys.db {} with
  | some (.ok logs) => some logs
  | _ => none

/-- A request that posts lines of the job comes from its pump. -/
def foreign (jobId : Uuid) : Label Request → Bool
  | .spawn (.pushLogs _ id _) => decide (id = jobId)
  | _ => false

/-- One step; `none` when it cannot be taken. -/
def step (app : App) (token : Str) (jobId : Uuid) (w : LogTail) : Act → Option LogTail
  | .agent a =>
    (w.pump.step a).map fun pump => { w with pump, posted := w.posted ++ w.pump.posts a }
  | .arrive i =>
    match w.posted[i]? with
    | none => none
    | some batch =>
      match entriesIn? batch with
      | none => some { w with posted := w.posted.eraseIdx i }
      | some entries =>
        (ReadCommitted.step (controlPlane app) w.sys
          (.spawn (.pushLogs (some token) jobId entries))).map fun sys =>
            { w with posted := w.posted.eraseIdx i, sys }
  | .serve l =>
    if foreign jobId l then none
    else (ReadCommitted.step (controlPlane app) w.sys l).map fun sys => { w with sys }
  | .poll limit =>
    if limit = 0 then none
    else (w.page jobId limit).map fun page => { w with received := w.received ++ page }

/-- The job has been claimed, and its log is about to be written and read. -/
def start (db : Database) (clock : Time) : LogTail := { sys := idle db clock }

end LogTail

/-- The lines of the job have numbers, no two the same. -/
structure Numbered (jobId : Uuid) (db : Database) : Prop where
  nonneg : ∀ l, .jobLog l ∈ db.rows → l.jobId = jobId → 0 ≤ l.sequence
  unique : ∀ l l', .jobLog l ∈ db.rows → .jobLog l' ∈ db.rows → l.jobId = jobId →
    l'.jobId = jobId → l.sequence = l'.sequence → l = l'

/-- The reader has received what is stored for the job, each line once and in order. -/
structure CaughtUp (jobId : Uuid) (w : LogTail) : Prop where
  received : ∀ l, l ∈ w.received ↔ .jobLog l ∈ w.sys.db.rows ∧ l.jobId = jobId
  ordered : w.received.Pairwise fun a b => a.sequence < b.sequence

/-- **A polling reader misses nothing**: an empty answer means that it has everything. -/
def MissesNothing (app : App) (token : Str) (jobId : Uuid)
    (T : LogTail → LogTail.Act → Prop) : Prop :=
  ∀ db clock w, Numbered jobId db →
    Machine.Run (LogTail.step app token jobId) T (.start db clock) w →
    ∀ limit, 1 ≤ limit → w.page jobId limit = some [] → CaughtUp jobId w

/-- The write adds no line of the job at or below the mark. -/
def ahead (jobId : Uuid) (mark : Int) : Write Row Key → Bool
  | .insert (.jobLog l) => decide (l.jobId ≠ jobId) || decide (mark < l.sequence)
  | _ => true

/-- A batch commits ahead of all that the reader has received. -/
def InOrder (jobId : Uuid) (w : LogTail) : LogTail.Act → Prop
  | .serve l => ∀ i th, Commits w.sys l i th →
    ∀ v ∈ th.ses.tx.writes, ahead jobId (watermark w.received) v = true
  | _ => True

/-! ## One poll -/

/-- A line of the job that is stored. -/
def Stored (jobId : Uuid) (db : Database) (l : JobLog) : Prop :=
  .jobLog l ∈ db.rows ∧ l.jobId = jobId

/-- The place of a line: the first line has the greatest. -/
def JobLog.place (l : JobLog) : ℤᵒᵈ := OrderDual.toDual l.sequence

/-- The same for a row of the log. -/
def linePlace : Row → ℤᵒᵈ
  | .jobLog l => l.place
  | _ => 0

theorem le_watermark {received : List JobLog} {l : JobLog} (h : l ∈ received) :
    l.sequence ≤ watermark received := by
  induction received with
  | nil => simp at h
  | cons x xs ih =>
    rw [watermark, List.foldr_cons]
    rcases List.mem_cons.1 h with rfl | h
    · exact le_max_left _ _
    · exact (ih h).trans (le_max_right _ _)

theorem watermark_cases (received : List JobLog) :
    watermark received = -1 ∨ ∃ l ∈ received, l.sequence = watermark received := by
  induction received with
  | nil => exact Or.inl rfl
  | cons x xs ih =>
    have hmax : watermark (x :: xs) = max x.sequence (watermark xs) := rfl
    rw [hmax]
    rcases le_total x.sequence (watermark xs) with hle | hle
    · rw [max_eq_right hle]
      rcases ih with ih | ⟨l, hl, he⟩
      · exact Or.inl ih
      · exact Or.inr ⟨l, List.mem_cons_of_mem _ hl, he⟩
    · rw [max_eq_left hle]
      exact Or.inr ⟨x, List.mem_cons_self .., rfl⟩

theorem neg_one_le_watermark (received : List JobLog) : -1 ≤ watermark received := by
  induction received with
  | nil => exact le_rfl
  | cons x xs ih => exact ih.trans (le_max_right _ _)

theorem mem_jobLogsOf {rows : List Row} {l : JobLog} : l ∈ jobLogsOf rows ↔ .jobLog l ∈ rows := by
  unfold jobLogsOf
  rw [List.mem_filterMap]
  constructor
  · rintro ⟨r, hr, he⟩
    cases r with
    | jobLog x => cases he; exact hr
    | _ => cases he
  · intro h
    exact ⟨_, h, rfl⟩

theorem mem_logsAfter {jobId : Uuid} {mark : Int} {l : JobLog} :
    l ∈ jobLogsOf (matching db (.logsAfter jobId mark)) ↔
      Stored jobId db l ∧ Keyset.Below (some (OrderDual.toDual mark)) l.place := by
  rw [mem_jobLogsOf, mem_matching]
  simp [Stored, Keyset.Below, JobLog.place, Cond.holds, and_assoc]

/-- The listing goes through the lines by their numbers. -/
theorem pairwise_logsAfter {jobId : Uuid} (mark : Int)
    (hunique : ∀ l l', Stored jobId db l → Stored jobId db l' → l.sequence = l'.sequence → l = l') :
    (jobLogsOf (matching db (.logsAfter jobId mark))).Pairwise fun a b => b.place < a.place := by
  have hline : ∀ {r}, r ∈ matching db (.logsAfter jobId mark) →
      ∃ l, r = .jobLog l ∧ Stored jobId db l := by
    intro r hr
    obtain ⟨hrow, hh⟩ := mem_matching.1 hr
    cases r with
    | jobLog l =>
      simp only [schema_holds, Cond.holds, Bool.and_eq_true, decide_eq_true_eq] at hh
      exact ⟨l, rfl, hrow, hh.1⟩
    | _ => cases hh
  have hpair : (matching db (.logsAfter jobId mark)).Pairwise fun a b =>
      linePlace b < linePlace a := by
    refine pairwise_matching linePlace db (fun a b ha hb => ?_) fun a b ha hb he => ?_
    · cases a with
      | jobLog x =>
        cases b with
        | jobLog y =>
          show decide (x.sequence ≤ y.sequence) = true ↔ y.place ≤ x.place
          simp [JobLog.place]
        | _ => cases hb
      | _ => cases ha
    · obtain ⟨x, rfl, hx⟩ := hline ha
      obtain ⟨y, rfl, hy⟩ := hline hb
      rw [hunique x y hx hy (OrderDual.toDual_inj.1 he)]
  refine hpair.filterMap _ fun a b hab x hx y hy => ?_
  cases a with
  | jobLog l =>
    cases b with
    | jobLog l' => cases hx; cases hy; exact hab
    | _ => cases hy
  | _ => cases hx

/-- The lines the reader asks for are a page of the log. -/
theorem isPage_page {jobId : Uuid} {w : LogTail} (limit : Nat)
    (hunique : ∀ l l', Stored jobId w.sys.db l → Stored jobId w.sys.db l' →
      l.sequence = l'.sequence → l = l') :
    ∃ page, w.page jobId limit = some page ∧
      Keyset.IsPage JobLog.place limit (Stored jobId w.sys.db)
        (some (OrderDual.toDual (watermark w.received))) page :=
  ⟨_, rfl, Keyset.isPage_take limit (pairwise_logsAfter _ hunique) fun _ => mem_logsAfter⟩

/-- What the reader has is the log up to its watermark, each line once and in order. -/
structure Follows (jobId : Uuid) (db : Database) (received : List JobLog) : Prop where
  mem : ∀ l, l ∈ received ↔ Stored jobId db l ∧ l.sequence ≤ watermark received
  ordered : received.Pairwise fun a b => a.sequence < b.sequence

/-- **A poll takes the reader on by a page.** -/
theorem Follows.append {jobId : Uuid} {received page : List JobLog} {limit : Nat}
    (h : Follows jobId db received)
    (hp : Keyset.IsPage JobLog.place limit (Stored jobId db)
      (some (OrderDual.toDual (watermark received))) page) :
    Follows jobId db (received ++ page) := by
  have habove : ∀ l ∈ page, watermark received < l.sequence := fun l hl =>
    hp.below l hl _ rfl
  refine ⟨fun l => ⟨fun hl => ⟨?_, le_watermark hl⟩, fun ⟨hstored, hle⟩ => ?_⟩, ?_⟩
  · rcases List.mem_append.1 hl with hl | hl
    · exact ((h.mem l).1 hl).1
    · exact hp.listed l hl
  · by_cases hold : l.sequence ≤ watermark received
    · exact List.mem_append_left _ ((h.mem l).2 ⟨hstored, hold⟩)
    · rw [not_le] at hold
      have hbelow : Keyset.Below (some (OrderDual.toDual (watermark received))) l.place := by
        rintro b hb
        cases hb
        exact hold
      rcases hp.complete l hstored hbelow with hl | ⟨-, hbehind⟩
      · exact List.mem_append_right _ hl
      · -- a line behind the page lies above the new watermark
        have hmark := neg_one_le_watermark received
        rcases watermark_cases (received ++ page) with hnone | ⟨x, hx, hmax⟩
        · omega
        · rcases List.mem_append.1 hx with hx | hx
          · have hxle := le_watermark hx
            omega
          · have hlt : x.sequence < l.sequence := hbehind x hx
            omega
  · refine List.pairwise_append.2 ⟨h.ordered, hp.sorted, fun a ha b hb => ?_⟩
    exact (le_watermark ha).trans_lt (habove b hb)

/-- A reader who gets an empty page has it all. -/
theorem Follows.caughtUp {jobId : Uuid} {w : LogTail} {limit : Nat} (hlimit : 1 ≤ limit)
    (h : Follows jobId w.sys.db w.received)
    (hp : Keyset.IsPage JobLog.place limit (Stored jobId w.sys.db)
      (some (OrderDual.toDual (watermark w.received))) []) : CaughtUp jobId w := by
  refine ⟨fun l => ⟨fun hl => ((h.mem l).1 hl).1, fun hl => (h.mem l).2 ⟨hl, ?_⟩⟩,
    h.ordered⟩
  by_contra hnot
  rw [not_le] at hnot
  have hbelow : Keyset.Below (some (OrderDual.toDual (watermark w.received))) l.place := by
    rintro b hb
    cases hb
    exact hnot
  rcases hp.complete l hl hbelow with hmem | ⟨hlen, -⟩
  · simp at hmem
  · rw [List.length_nil] at hlen
    omega

/-! ## Runs -/

/-- What every step in order keeps. -/
structure LogTail.Sound (app : App) (jobId : Uuid) (w : LogTail) : Prop where
  reached : ∃ db clock, Reach (controlPlane app) anyTerms (idle db clock) w.sys
  distinct : Distinct (LineOf jobId) (Posts jobId) w.sys
  follows : Follows jobId w.sys.db w.received

theorem unique_of_distinct {jobId : Uuid} {s : System}
    (h : Distinct (LineOf jobId) (Posts jobId) s) (l l' : JobLog) (hl : Stored jobId s.db l)
    (hl' : Stored jobId s.db l') (he : l.sequence = l'.sequence) : l = l' := by
  by_contra hne
  have hapart := h.stored _ hl.1 _ hl'.1 ⟨l, rfl, hl.2⟩ ⟨l', rfl, hl'.2⟩
    fun heq => hne (Row.jobLog.inj heq)
  have hclash : (decide (l.jobId = l'.jobId) && decide (l.sequence = l'.sequence)) = false :=
    hapart
  rw [hl.2, hl'.2, he] at hclash
  simp at hclash

/-- A step of the control plane that commits no line behind the reader's back. -/
theorem LogTail.Sound.serve {jobId : Uuid} {w : LogTail} {l : Label Request} {s : System}
    (h : w.Sound app jobId) (hs : ReadCommitted.step (controlPlane app) w.sys l = some s)
    (hord : InOrder jobId w (.serve l)) : ({ w with sys := s } : LogTail).Sound app jobId := by
  obtain ⟨db, clock, hr⟩ := h.reached
  have hok : (onward app).Ok w.sys := onward_ok rfl hr
  refine ⟨⟨db, clock, hr.tail hs trivial⟩,
    distinct_step (inserts_lines app jobId) Row.clash_comm hok h.distinct hs, ?_⟩
  rcases hok.db_cases hs with hdb | ⟨i, th, th', hc, hcom, hdb, -⟩
  · exact ⟨hdb ▸ h.follows.mem, h.follows.ordered⟩
  refine ⟨fun x => (h.follows.mem x).trans ?_, h.follows.ordered⟩
  rw [hdb]
  refine and_congr_left fun hle => ?_
  constructor
  · rintro ⟨hrow, hjob⟩
    exact ⟨jobLog_stays hcom.shape hrow, hjob⟩
  · rintro ⟨hrow, hjob⟩
    rcases jobLog_of_view hcom.shape hrow with hold | ⟨bearer, entries, -, hw, -⟩
    · exact ⟨hold, hjob⟩
    · have hahead := hord i th hc _ hw
      simp only [ahead, hjob, ne_eq, not_true_eq_false, decide_false, Bool.false_or,
        decide_eq_true_eq] at hahead
      omega

/-- **What the reader has is the log up to its watermark**, after every step in order. -/
theorem LogTail.Sound.step {token : Str} {jobId : Uuid} {w w' : LogTail} {a : LogTail.Act}
    (h : w.Sound app jobId) (hord : InOrder jobId w a)
    (hs : LogTail.step app token jobId w a = some w') : w'.Sound app jobId := by
  cases a with
  | agent a =>
    obtain ⟨pump, -, rfl⟩ := Option.map_eq_some_iff.1 hs
    exact ⟨h.reached, h.distinct, h.follows⟩
  | arrive i =>
    simp only [LogTail.step] at hs
    split at hs
    · cases hs
    · split at hs
      · cases hs
        exact ⟨h.reached, h.distinct, h.follows⟩
      · obtain ⟨s, hstep, rfl⟩ := Option.map_eq_some_iff.1 hs
        have hserve := h.serve hstep fun i th hc => by
          obtain ⟨-, -, pick, he⟩ := hc
          cases he
        exact ⟨hserve.reached, hserve.distinct, hserve.follows⟩
  | serve l =>
    simp only [LogTail.step] at hs
    split at hs
    · cases hs
    · obtain ⟨s, hstep, rfl⟩ := Option.map_eq_some_iff.1 hs
      exact h.serve hstep hord
  | poll limit =>
    simp only [LogTail.step] at hs
    split at hs
    · cases hs
    · obtain ⟨page, hpage, rfl⟩ := Option.map_eq_some_iff.1 hs
      obtain ⟨page', hpage', hp⟩ := isPage_page limit (unique_of_distinct h.distinct)
      rw [hpage, Option.some.injEq] at hpage'
      subst hpage'
      exact ⟨h.reached, h.distinct, h.follows.append hp⟩

theorem sound_start (app : App) {jobId : Uuid} (hdb : Numbered jobId db) (clock : Time) :
    (LogTail.start db clock).Sound app jobId := by
  refine ⟨⟨db, clock, Reach.refl⟩, distinct_of_no_threads rfl ?_, fun l => ?_, List.Pairwise.nil⟩
  · rintro _ hx _ hy ⟨x, rfl, hxjob⟩ ⟨y, rfl, hyjob⟩ hne
    have hseq : x.sequence ≠ y.sequence := fun he =>
      hne (congrArg Row.jobLog (hdb.unique x y hx hy hxjob hyjob he))
    show (decide (x.jobId = y.jobId) && decide (x.sequence = y.sequence)) = false
    simp [hseq]
  · constructor
    · intro hl
      simp [LogTail.start] at hl
    · rintro ⟨⟨hrow, hjob⟩, hle⟩
      have hnonneg := hdb.nonneg l hrow hjob
      have hmark : watermark (LogTail.start db clock).received = -1 := rfl
      omega

/-- **A polling reader misses nothing** as long as every batch commits ahead of what the
reader has received. -/
theorem reader_misses_nothing (app : App) (token : Str) (jobId : Uuid) :
    MissesNothing app token jobId (InOrder jobId) := by
  intro db clock w hdb hrun limit hlimit hempty
  have hsound := hrun.invariant (fun w => w.Sound app jobId)
    (fun _ _ _ hI hord hs => hI.step hord hs) (sound_start app hdb clock)
  obtain ⟨page, hpage, hp⟩ := isPage_page limit (unique_of_distinct hsound.distinct)
  rw [hempty, Option.some.injEq] at hpage
  subst hpage
  exact hsound.follows.caughtUp hlimit hp

/-- The promise as a check. -/
def inOrder (jobId : Uuid) (w : LogTail) : LogTail.Act → Bool
  | .serve l =>
    passes (fun _ _ th => th.ses.tx.writes.all (ahead jobId (watermark w.received))) w.sys l
  | _ => true

theorem inOrder_sound {jobId : Uuid} {w : LogTail} {a : LogTail.Act}
    (h : inOrder jobId w a = true) : InOrder jobId w a := by
  cases a with
  | serve l =>
    intro i th hc v hv
    have hall := passes_sound (c := fun _ _ th =>
      th.ses.tx.writes.all (ahead jobId (watermark w.received))) h hc
    exact List.all_eq_true.1 hall v hv
  | _ => trivial

/-- A job that runs on a node, of which nothing is logged yet. -/
def unloggedDb : Database :=
  ((Db.empty.insert (.user sampleUser)).insert (.node sampleNode)).insert
    (.job (sampleJob.claimedBy 2 0))

theorem numbered_unloggedDb : Numbered 3 unloggedDb := by
  have hrows : unloggedDb.rows =
      [.user sampleUser, .node sampleNode, .job (sampleJob.claimedBy 2 0)] := by decide +kernel
  have hnone : ∀ l, .jobLog l ∉ unloggedDb.rows := by
    intro l hl
    rw [hrows] at hl
    simp at hl
  exact ⟨fun l hl => absurd hl (hnone l), fun l _ hl => absurd hl (hnone l)⟩

/-- A batch is stored and read, and then the next one. -/
def tailRun : List LogTail.Act :=
  [.agent (.emit (Agent.go "stdout") (Agent.go "one")), .agent .tick, .agent .flush, .arrive 0] ++
    (runs 0 6).map .serve ++ [.poll 500, .agent .answer,
      .agent (.emit (Agent.go "stdout") (Agent.go "two")), .agent .tick, .agent .flush,
      .arrive 0] ++ (runs 1 6).map .serve ++ [.poll 500]

theorem reader_misses_nothing_at_tailRun : ∃ w,
    Machine.Run (LogTail.step plainApp sampleAgentToken 3) (InOrder 3) (.start unloggedDb 0) w ∧
      w.received.map JobLog.sequence = [0, 1] ∧ CaughtUp 3 w := by
  obtain ⟨w, hw, hall⟩ := Option.map_eq_some_iff.1 (show
    (Machine.play (LogTail.step plainApp sampleAgentToken 3) (inOrder 3) (.start unloggedDb 0)
      tailRun).map (fun w => (w.received.map JobLog.sequence, w.page 3 500)) =
      some ([0, 1], some []) by decide +kernel)
  obtain ⟨hreceived, hpage⟩ := Prod.mk.inj hall
  have hrun := Machine.Run.of_play (fun _ _ => inOrder_sound) hw
  exact ⟨w, hrun, hreceived, reader_misses_nothing plainApp sampleAgentToken 3 unloggedDb 0 w
    numbered_unloggedDb hrun 500 (by decide) hpage⟩

/-- The job ends while the first batch is posted.  The agent gives that request up and posts
the rest, which commits and is read before the first batch commits. -/
def overtakenBatchRun : List LogTail.Act :=
  [.agent (.emit (Agent.go "stdout") (Agent.go "one")), .agent .tick, .agent .flush,
    .agent (.emit (Agent.go "stdout") (Agent.go "two")), .agent .pumpCancel, .agent .abort,
    .agent .finalFlush, .arrive 0, .arrive 0] ++
    (runs 1 6).map .serve ++ [.poll 500] ++ (runs 0 6).map .serve

/-- **A batch that the final flush overtakes is missed.** -/
theorem overtaken_batch_is_missed :
    ¬ MissesNothing plainApp sampleAgentToken 3 Machine.anyStep := by
  intro h
  obtain ⟨w, hw, hall⟩ := Option.map_eq_some_iff.1 (show
    (Machine.play (LogTail.step plainApp sampleAgentToken 3) (fun _ _ => true)
      (.start unloggedDb 0) overtakenBatchRun).map (fun w => (w.received.map JobLog.sequence,
        w.page 3 500, (jobLogsOf w.sys.db.rows).map fun l => (l.jobId, l.sequence))) =
      some ([1], some [], [(3, 1), (3, 0)]) by decide +kernel)
  obtain ⟨hreceived, hall⟩ := Prod.mk.inj hall
  obtain ⟨hpage, hstored⟩ := Prod.mk.inj hall
  have hcaught := h unloggedDb 0 w numbered_unloggedDb
    (Machine.Run.of_play (fun _ _ _ => trivial) hw) 500 (by decide) hpage
  -- the first line is stored and was not received
  have hfirst : (3, (0 : Int)) ∈ (jobLogsOf w.sys.db.rows).map fun l => (l.jobId, l.sequence) := by
    rw [hstored]
    simp
  obtain ⟨l, hl, he⟩ := List.mem_map.1 hfirst
  obtain ⟨hjob, hseq⟩ := Prod.mk.inj he
  have hmem := (hcaught.received l).2 ⟨mem_jobLogsOf.1 hl, hjob⟩
  have hone := List.mem_map_of_mem (f := JobLog.sequence) hmem
  rw [hreceived, hseq] at hone
  simp at hone

end GpuNetwork
