import GpuNetwork.Agent.JobOutput
import GpuNetwork.Jobs.LogStore

/-!
# The buffer of the log pump

Any number of goroutines call `Emit` and `flush` on one `logPump`.  Each call has one
critical section; what happens between it and the rest of the call is left to the
scheduler, and so is what becomes of the `POST` of a batch.

* `LogBuffer`, `LogBuffer.step` — the calls, the requests on their way and the control plane.
* `Handed` — the batches and the buffer are the lines, numbered in lock order.
* `lines_are_handed_over_once` — and so nothing is dropped as a duplicate.
-/

namespace GpuNetwork.Agent

open Machine FirstWrite

/-- Where a call of `Emit` or `flush` is. -/
inductive Call where
  /-- `Emit`, before its critical section. -/
  | emitting (stream content : GoString)
  /-- `flush`, before its critical section. -/
  | flushing
  /-- `flush`, in the `POST` of its batch. -/
  | posting (batch : List LogEntry)
  | returned
  deriving DecidableEq

/-- What a line is found under at the control plane, and what it says. -/
def LogEntry.pair (e : LogEntry) : Nat × Line := (e.sequence, (e.stream, e.content))

/-- A `logPump` with the calls on it, and the log of its job at the control plane. -/
structure LogBuffer where
  buf : List LogEntry := []
  nextSeq : Nat := 0
  calls : List Call := []
  /-- The lines that `Emit` has buffered. -/
  lines : List Line := []
  /-- The batches that `flush` has taken. -/
  batches : List (List LogEntry) := []
  /-- The batches whose requests the control plane has not handled. -/
  underway : List (List LogEntry) := []
  /-- The batches whose requests it has handled, in its order. -/
  arrived : List (List LogEntry) := []
  /-- The log that it has stored. -/
  stored : FirstWrite.Table Nat Line := fun _ => none

namespace LogBuffer

/-- What happens next. -/
inductive Act where
  /-- A goroutine calls `Emit`. -/
  | emit (stream content : GoString)
  /-- A goroutine calls `flush`. -/
  | flush
  /-- A call goes through its critical section. -/
  | lock (i : Nat)
  /-- The control plane handles a request. -/
  | arrive (j : Nat)
  /-- The `POST` of a call ends, with an answer or with an error. -/
  | finish (i : Nat) (ok : Bool)
  deriving DecidableEq

/-- One step; `none` when it cannot be taken.  A request may be handled after its `POST` has
failed, or never. -/
def step (b : LogBuffer) : Act → Option LogBuffer
  | .emit stream content =>
    some { b with
      calls := b.calls ++ [if content = [] then .returned else .emitting stream content] }
  | .flush => some { b with calls := b.calls ++ [.flushing] }
  | .lock i =>
    match b.calls[i]? with
    | some (.emitting stream content) =>
      some { b with
        buf := b.buf ++ [⟨stream, content, b.nextSeq⟩]
        nextSeq := b.nextSeq + 1
        calls := b.calls.set i .returned
        lines := b.lines ++ [(stream, content)] }
    | some .flushing =>
      if b.buf = [] then some { b with calls := b.calls.set i .returned }
      else
        some { b with
          buf := []
          calls := b.calls.set i (.posting b.buf)
          batches := b.batches ++ [b.buf]
          underway := b.underway ++ [b.buf] }
    | _ => none
  | .arrive j =>
    match b.underway[j]? with
    | none => none
    | some batch =>
      some { b with
        underway := b.underway.eraseIdx j
        arrived := b.arrived ++ [batch]
        stored := absorb b.stored (batch.map LogEntry.pair) }
  | .finish i _ =>
    match b.calls[i]? with
    | some (.posting _) => some { b with calls := b.calls.set i .returned }
    | _ => none

end LogBuffer

/-- The lines with their numbers, from `n` on. -/
def numbered : Nat → List Line → List LogEntry
  | _, [] => []
  | n, line :: lines => ⟨line.1, line.2, n⟩ :: numbered (n + 1) lines

theorem numbered_append (n : Nat) (lines lines' : List Line) :
    numbered n (lines ++ lines') = numbered n lines ++ numbered (n + lines.length) lines' := by
  induction lines generalizing n with
  | nil => rfl
  | cons line lines ih =>
    rw [List.cons_append, numbered, ih, numbered, List.length_cons]
    have hn : n + 1 + lines.length = n + (lines.length + 1) := by omega
    rw [hn]
    rfl

theorem map_sequence_numbered (n : Nat) (lines : List Line) :
    (numbered n lines).map LogEntry.sequence = List.range' n lines.length := by
  induction lines generalizing n with
  | nil => rfl
  | cons line lines ih => rw [numbered, List.map_cons, ih, List.length_cons, List.range'_succ]

/-- The batches and the buffer are the lines, each with its number; and what the control
plane has stored came in these batches. -/
structure Handed (b : LogBuffer) : Prop where
  whole : b.batches.flatten ++ b.buf = numbered 0 b.lines
  next : b.nextSeq = b.lines.length
  sent : (b.arrived ++ b.underway).Perm b.batches
  stored : b.stored = absorb (fun _ => none) (b.arrived.flatten.map LogEntry.pair)

theorem handed_start : Handed {} := ⟨rfl, rfl, List.Perm.refl _, rfl⟩

/-- **A step hands lines on in order.** -/
theorem Handed.step {b b' : LogBuffer} {a : LogBuffer.Act} (h : Handed b)
    (hs : b.step a = some b') : Handed b' := by
  obtain ⟨hwhole, hnext, hsent, hstored⟩ := h
  cases a with
  | emit stream content =>
    cases hs
    exact ⟨hwhole, hnext, hsent, hstored⟩
  | flush =>
    cases hs
    exact ⟨hwhole, hnext, hsent, hstored⟩
  | lock i =>
    simp only [LogBuffer.step] at hs
    split at hs
    · cases hs
      refine ⟨?_, ?_, hsent, hstored⟩
      · rw [← List.append_assoc, hwhole, numbered_append, hnext, Nat.zero_add]
        rfl
      · rw [List.length_append, hnext]
        rfl
    · split at hs
      · cases hs
        exact ⟨hwhole, hnext, hsent, hstored⟩
      · cases hs
        refine ⟨?_, hnext, ?_, hstored⟩
        · rw [List.flatten_append, List.flatten_singleton, List.append_nil]
          exact hwhole
        · rw [← List.append_assoc]
          exact hsent.append_right _
    · cases hs
  | arrive j =>
    simp only [LogBuffer.step] at hs
    split at hs
    · cases hs
    · rename_i batch hj
      cases hs
      refine ⟨hwhole, hnext, ?_, ?_⟩
      · have hperm : (batch :: b.underway.eraseIdx j).Perm b.underway := by
          obtain ⟨hlt, rfl⟩ := List.getElem?_eq_some_iff.1 hj
          exact List.getElem_cons_eraseIdx_perm hlt
        rw [List.append_assoc]
        exact (hperm.append_left _).trans hsent
      · rw [List.flatten_append, List.map_append, absorb_append, ← hstored,
          List.flatten_singleton]
  | finish i ok =>
    simp only [LogBuffer.step] at hs
    split at hs
    · cases hs
      exact ⟨hwhole, hnext, hsent, hstored⟩
    · cases hs

theorem handed_of_run {b : LogBuffer} (h : Run LogBuffer.step anyStep {} b) : Handed b :=
  h.invariant Handed (fun _ _ _ hI _ hs => hI.step hs) handed_start

/-! ## Numbers -/

theorem Handed.sequences {b : LogBuffer} (h : Handed b) :
    (b.batches.flatten ++ b.buf).map LogEntry.sequence = List.range b.lines.length := by
  rw [h.whole, map_sequence_numbered, List.range_eq_range']

/-- No number comes twice in the batches. -/
theorem Handed.nodup_batches {b : LogBuffer} (h : Handed b) :
    (b.batches.flatten.map LogEntry.sequence).Nodup := by
  have hall : ((b.batches.flatten ++ b.buf).map LogEntry.sequence).Nodup := by
    rw [h.sequences]
    exact List.nodup_range
  rw [List.map_append] at hall
  exact hall.of_append_left

/-- Two batches have no number in common. -/
theorem Handed.disjoint {b : LogBuffer} (h : Handed b) {i j : Nat} {batch batch' : List LogEntry}
    (hij : i < j) (hi : b.batches[i]? = some batch) (hj : b.batches[j]? = some batch') :
    ∀ e ∈ batch, ∀ e' ∈ batch', e.sequence ≠ e'.sequence := by
  intro e he e' he' hsame
  have hnd := h.nodup_batches
  rw [List.map_flatten, List.nodup_flatten] at hnd
  obtain ⟨hli, rfl⟩ := List.getElem?_eq_some_iff.1 hi
  obtain ⟨hlj, rfl⟩ := List.getElem?_eq_some_iff.1 hj
  have hdisj := List.pairwise_iff_getElem.1 hnd.2 i j (by simpa using hli) (by simpa using hlj) hij
  rw [List.getElem_map, List.getElem_map] at hdisj
  exact hdisj (List.mem_map_of_mem he) (hsame ▸ List.mem_map_of_mem he')

/-- A batch on its way has numbers of its own, none of them among those that have arrived. -/
theorem Handed.underway {b : LogBuffer} (h : Handed b) {batch : List LogEntry}
    (hb : batch ∈ b.underway) : (batch.map LogEntry.sequence).Nodup ∧
      ∀ e ∈ batch, ∀ e' ∈ b.arrived.flatten, e.sequence ≠ e'.sequence := by
  have hperm : ((b.arrived ++ b.underway).flatten.map LogEntry.sequence).Nodup :=
    ((h.sent.flatten.map _).nodup_iff).2 h.nodup_batches
  rw [List.flatten_append, List.map_append, List.nodup_append] at hperm
  obtain ⟨-, hunder, hdisj⟩ := hperm
  refine ⟨?_, fun e he e' he' hsame => ?_⟩
  · rw [List.map_flatten, List.nodup_flatten] at hunder
    exact hunder.1 _ (List.mem_map_of_mem hb)
  · refine hdisj _ (List.mem_map_of_mem he') _
      (List.mem_map_of_mem (List.mem_flatten.2 ⟨batch, hb, he⟩)) hsame.symm

/-- **Nothing of a batch is dropped as a duplicate.** -/
theorem Handed.entering {b : LogBuffer} (h : Handed b) {batch : List LogEntry}
    (hb : batch ∈ b.underway) :
    entering b.stored (batch.map LogEntry.pair) = batch.map LogEntry.pair := by
  obtain ⟨hnd, hnew⟩ := h.underway hb
  refine entering_eq_self (fun x hx => ?_) ?_
  · obtain ⟨e, he, rfl⟩ := List.mem_map.1 hx
    have hnone : b.stored e.pair.1 = none := by
      rw [h.stored, absorb_of_not_mem fun y hy => ?_]
      obtain ⟨e', he', rfl⟩ := List.mem_map.1 hy
      exact fun hsame => hnew e he e' he' hsame.symm
    rw [hnone]
    rfl
  · rw [List.map_map]
    exact hnd

/-! ## At the control plane -/

theorem sequence_of_entryIn? {e : LogEntry} {entry : JobLogEntryIn}
    (h : entryIn? e = some entry) : entry.sequence = e.sequence := by
  unfold entryIn? at h
  split at h
  · cases h
  · split at h
    · cases h
      rfl
    · cases h

theorem map_sequence_entries {batch : List LogEntry} {entries : List JobLogEntryIn}
    (h : batch.mapM entryIn? = some entries) :
    entries.map JobLogEntryIn.sequence = batch.map fun e => (e.sequence : Int) := by
  induction batch generalizing entries with
  | nil =>
    cases h
    rfl
  | cons e batch ih =>
    rw [List.mapM_cons] at h
    obtain ⟨entry, hentry, h⟩ := Option.bind_eq_some_iff.1 h
    obtain ⟨rest, hrest, h⟩ := Option.bind_eq_some_iff.1 h
    cases h
    rw [List.map_cons, List.map_cons, ih hrest, sequence_of_entryIn? hentry]

/-- The control plane adds every line of a batch whose numbers it does not know. -/
theorem appended_batch {db : Database} {c : Append} {batch : List LogEntry}
    (hready : Ready db [c]) (hfit : c.Storable)
    (hentries : batch.mapM entryIn? = some c.entries)
    (hnd : (batch.map LogEntry.sequence).Nodup)
    (hnew : ∀ e ∈ batch, logMap db (c.jobId, (e.sequence : Int)) = none) :
    (appended db c).1 = .ok batch.length := by
  have hseqs := map_sequence_entries hentries
  have hkeys : c.lines.map Prod.fst = batch.map fun e => (c.jobId, (e.sequence : Int)) := by
    have hmap := congrArg (List.map fun q => (c.jobId, q)) hseqs
    rw [List.map_map, List.map_map] at hmap
    rw [Append.lines, List.map_map]
    exact hmap
  have hall : FirstWrite.entering (logMap db) c.lines = c.lines := by
    refine entering_eq_self (fun x hx => ?_) ?_
    · have hk := List.mem_map_of_mem (f := Prod.fst) hx
      rw [hkeys] at hk
      obtain ⟨e, he, hke⟩ := List.mem_map.1 hk
      rw [← hke, hnew e he]
      rfl
    · rw [hkeys]
      have hinj := List.Nodup.map (f := fun q : Nat => (c.jobId, (q : Int)))
        (fun q q' hq => by simpa using hq) hnd
      rwa [List.map_map] at hinj
  obtain ⟨hret, -, -⟩ := hready.step hfit
  rw [hret, ← length_entering, hall, ← List.length_map Prod.fst, hkeys, List.length_map]

/-- **The log buffer hands over every line once, in order.**  Whatever the goroutines and
their requests do, the batches and the buffer are the lines of the calls of `Emit` in the
order of their critical sections, numbered from 0 without a gap; no two batches share a
number, and no line of a batch is dropped as a duplicate when it arrives. -/
theorem lines_are_handed_over_once {b : LogBuffer} (h : Run LogBuffer.step anyStep {} b) :
    b.batches.flatten ++ b.buf = numbered 0 b.lines ∧
    (b.batches.flatten ++ b.buf).map LogEntry.sequence = List.range b.lines.length ∧
    (∀ (i j : Nat) (batch batch' : List LogEntry), i < j →
      b.batches[i]? = some batch → b.batches[j]? = some batch' →
      ∀ e ∈ batch, ∀ e' ∈ batch', e.sequence ≠ e'.sequence) ∧
    (∀ batch ∈ b.underway,
      entering b.stored (batch.map LogEntry.pair) = batch.map LogEntry.pair) ∧
    ∀ batch ∈ b.underway, ∀ (db : Database) (c : Append), Ready db [c] →
      batch.mapM entryIn? = some c.entries → c.Storable →
      (∀ q, logMap db (c.jobId, q) ≠ none → ∃ e ∈ b.arrived.flatten, (e.sequence : Int) = q) →
      (appended db c).1 = .ok batch.length := by
  have hb := handed_of_run h
  refine ⟨hb.whole, hb.sequences, fun i j batch batch' hij hi hj => hb.disjoint hij hi hj,
    fun batch hbatch => hb.entering hbatch, ?_⟩
  intro batch hbatch db c hready hentries hfit hlog
  obtain ⟨hnd, hnew⟩ := hb.underway hbatch
  refine appended_batch hready hfit hentries hnd fun e he => ?_
  by_contra hknown
  obtain ⟨e', he', hq⟩ := hlog _ hknown
  exact hnew e he e' he' (by omega)

/-- Two lines and two flushes; the second batch arrives before the first. -/
def crossedActs : List LogBuffer.Act :=
  [.emit (go "stdout") (go "one"), .emit (go "stderr") (go "two"), .lock 1, .flush, .flush,
    .lock 3, .lock 0, .lock 2, .finish 3 false, .arrive 1, .arrive 0]

theorem lines_are_handed_over_once_at_crossedActs :
    ∃ b, Run LogBuffer.step anyStep {} b ∧
      b.arrived = [[⟨go "stdout", go "one", 1⟩], [⟨go "stderr", go "two", 0⟩]] ∧
      b.batches.flatten ++ b.buf = numbered 0 b.lines := by
  obtain ⟨b, hb, harrived⟩ := Option.map_eq_some_iff.1 (show
    (play LogBuffer.step (fun _ _ => true) {} crossedActs).map (fun b => b.arrived) =
      some [[⟨go "stdout", go "one", 1⟩], [⟨go "stderr", go "two", 0⟩]] by decide +kernel)
  have hr : Run LogBuffer.step anyStep {} b := Run.of_play (fun _ _ _ => trivial) hb
  exact ⟨b, hr, harrived, (lines_are_handed_over_once hr).1⟩

end GpuNetwork.Agent
