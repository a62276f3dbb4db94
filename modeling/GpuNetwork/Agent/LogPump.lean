import GpuNetwork.Store.Machine
import Mathlib.Data.List.Perm.Basic
import Mathlib.Data.List.Nodup
import Mathlib.Tactic.Basic

/-!
# The log pump of the agent

`logPump` of `internal/agent/daemon`, with the goroutines that use it: those that emit
lines, the loop that posts what is buffered whenever its ticker fires, and the deferred end
of `runJob`, which cancels the context of that loop and posts the rest.

* `Pump`, `step` — what the three do, one step at a time.
* `Balanced`, `balanced_of_run` — every line is in exactly one place.
* `TailHolds` — every line emitted before the end is posted once.
-/

namespace GpuNetwork.Agent

open Machine

/-- A string of Go: its bytes. -/
abbrev GoString := List UInt8

/-- `logEntry`. -/
structure LogEntry where
  stream : GoString
  content : GoString
  sequence : Nat
  deriving DecidableEq

/-- Where `logPump.run` is. -/
inductive Loop where
  /-- In its `select`. -/
  | waiting
  /-- The `select` has taken the case of the ticker. -/
  | ticked
  /-- In the `POST` of a flush. -/
  | posting (batch : List LogEntry)
  /-- The `select` has taken the case of the context. -/
  | returned
  deriving DecidableEq

/-- Where `runJob` is. -/
inductive Tail where
  /-- Before its deferred function. -/
  | body
  /-- After `pumpCancel`. -/
  | cancelled
  /-- In the `POST` of the final flush. -/
  | posting (batch : List LogEntry)
  | returned
  deriving DecidableEq

/-- `logPump` and the goroutines around it, with what has become of its batches. -/
structure Pump where
  buf : List LogEntry := []
  nextSeq : Nat := 0
  loop : Loop := .waiting
  tail : Tail := .body
  /-- The lines that were ever buffered. -/
  emitted : List LogEntry := []
  /-- The `POST`s that were answered, and those the agent has aborted. -/
  delivered : List (List LogEntry) := []
  aborted : List (List LogEntry) := []
  deriving DecidableEq

/-- What happens next. -/
inductive Act where
  | emit (stream content : GoString)
  /-- The loop sees its ticker. -/
  | tick
  /-- The loop sees its context cancelled. -/
  | done
  /-- The loop takes the buffer. -/
  | flush
  /-- The server answers the loop. -/
  | answer
  /-- The loop's `POST` ends with its context. -/
  | abort
  | pumpCancel
  /-- `runJob` takes the buffer. -/
  | finalFlush
  /-- The server answers `runJob`. -/
  | finalAnswer
  deriving DecidableEq

namespace Pump

/-- `Emit`. -/
def emit (p : Pump) (stream content : GoString) : Pump :=
  if content = [] then p
  else
    { p with
      buf := p.buf ++ [⟨stream, content, p.nextSeq⟩]
      nextSeq := p.nextSeq + 1
      emitted := p.emitted ++ [⟨stream, content, p.nextSeq⟩] }

/-- The context of the loop is cancelled. -/
def isCancelled (p : Pump) : Bool := decide (p.tail ≠ .body)

/-- One step; `none` when it cannot be taken.  Where the ticker has fired and the context is
cancelled, the loop may go either way; a `POST` whose context is cancelled is aborted unless
it is answered first. -/
def step (p : Pump) : Act → Option Pump
  | .emit stream content => some (p.emit stream content)
  | .tick => if p.loop = .waiting then some { p with loop := .ticked } else none
  | .done =>
    if p.loop = .waiting ∧ p.isCancelled = true then some { p with loop := .returned } else none
  | .flush =>
    if p.loop = .ticked then
      if p.buf = [] then some { p with loop := .waiting }
      else some { p with buf := [], loop := .posting p.buf }
    else none
  | .answer =>
    match p.loop with
    | .posting batch => some { p with loop := .waiting, delivered := p.delivered ++ [batch] }
    | _ => none
  | .abort =>
    match p.loop with
    | .posting batch =>
      if p.isCancelled then some { p with loop := .waiting, aborted := p.aborted ++ [batch] }
      else none
    | _ => none
  | .pumpCancel => if p.tail = .body then some { p with tail := .cancelled } else none
  | .finalFlush =>
    if p.tail = .cancelled then
      if p.buf = [] then some { p with tail := .returned }
      else some { p with buf := [], tail := .posting p.buf }
    else none
  | .finalAnswer =>
    match p.tail with
    | .posting batch => some { p with tail := .returned, delivered := p.delivered ++ [batch] }
    | _ => none

/-- The lines in the `POST` the loop is in. -/
def inLoop (p : Pump) : List LogEntry :=
  match p.loop with
  | .posting batch => batch
  | _ => []

/-- The lines in the `POST` `runJob` is in. -/
def inTail (p : Pump) : List LogEntry :=
  match p.tail with
  | .posting batch => batch
  | _ => []

/-- Where the lines are. -/
def places (p : Pump) : List LogEntry :=
  p.delivered.flatten ++ (p.aborted.flatten ++ (p.inLoop ++ (p.inTail ++ p.buf)))

end Pump

/-- Every line that was emitted is in exactly one place. -/
structure Balanced (p : Pump) : Prop where
  places : p.places.Perm p.emitted
  numbered : p.emitted.map LogEntry.sequence = List.range p.nextSeq

/-- **A step moves lines, and neither loses nor copies one.** -/
theorem Balanced.step {p p' : Pump} {a : Act} (h : Balanced p) (hs : p.step a = some p') :
    Balanced p' := by
  obtain ⟨hplaces, hnum⟩ := h
  cases a with
  | emit stream content =>
    cases hs
    unfold Pump.emit
    split
    · exact ⟨hplaces, hnum⟩
    · refine ⟨?_, ?_⟩
      · simp only [Pump.places, Pump.inLoop, Pump.inTail] at hplaces ⊢
        simp only [← List.append_assoc] at hplaces ⊢
        exact hplaces.append_right _
      · rw [List.map_append, hnum, List.range_succ]
        rfl
  | tick =>
    simp only [Pump.step] at hs
    split at hs
    · rename_i hloop
      cases hs
      refine ⟨?_, hnum⟩
      simpa [Pump.places, Pump.inLoop, Pump.inTail, hloop] using hplaces
    · cases hs
  | done =>
    simp only [Pump.step] at hs
    split at hs
    · rename_i hloop
      cases hs
      refine ⟨?_, hnum⟩
      simpa [Pump.places, Pump.inLoop, Pump.inTail, hloop.1] using hplaces
    · cases hs
  | flush =>
    simp only [Pump.step] at hs
    split at hs
    · rename_i hloop
      split at hs
      · rename_i hbuf
        cases hs
        refine ⟨?_, hnum⟩
        simpa [Pump.places, Pump.inLoop, Pump.inTail, hloop] using hplaces
      · cases hs
        refine ⟨?_, hnum⟩
        refine List.perm_iff_count.2 fun e => ?_
        have hcount := hplaces.count_eq e
        simp only [Pump.places, Pump.inLoop, Pump.inTail, hloop, List.count_append,
          List.count_nil] at hcount ⊢
        omega
    · cases hs
  | answer =>
    simp only [Pump.step] at hs
    split at hs
    · rename_i batch hloop
      cases hs
      refine ⟨?_, hnum⟩
      refine List.perm_iff_count.2 fun e => ?_
      have hcount := hplaces.count_eq e
      simp only [Pump.places, Pump.inLoop, Pump.inTail, hloop, List.flatten_append,
        List.flatten_singleton, List.count_append, List.count_nil] at hcount ⊢
      omega
    · cases hs
  | abort =>
    simp only [Pump.step] at hs
    split at hs
    · rename_i batch hloop
      split at hs
      · cases hs
        refine ⟨?_, hnum⟩
        simpa [Pump.places, Pump.inLoop, Pump.inTail, hloop] using hplaces
      · cases hs
    · cases hs
  | pumpCancel =>
    simp only [Pump.step] at hs
    split at hs
    · rename_i htail
      cases hs
      refine ⟨?_, hnum⟩
      simpa [Pump.places, Pump.inLoop, Pump.inTail, htail] using hplaces
    · cases hs
  | finalFlush =>
    simp only [Pump.step] at hs
    split at hs
    · rename_i htail
      split at hs
      · cases hs
        refine ⟨?_, hnum⟩
        simpa [Pump.places, Pump.inLoop, Pump.inTail, htail] using hplaces
      · cases hs
        refine ⟨?_, hnum⟩
        simpa [Pump.places, Pump.inLoop, Pump.inTail, htail] using hplaces
    · cases hs
  | finalAnswer =>
    simp only [Pump.step] at hs
    split at hs
    · rename_i batch htail
      cases hs
      refine ⟨?_, hnum⟩
      refine List.perm_iff_count.2 fun e => ?_
      have hcount := hplaces.count_eq e
      simp only [Pump.places, Pump.inLoop, Pump.inTail, htail, List.flatten_append,
        List.flatten_singleton, List.count_append, List.count_nil] at hcount ⊢
      omega
    · cases hs

theorem balanced_start : Balanced {} := ⟨List.Perm.refl _, rfl⟩

/-- **Every line is in exactly one place**, in every state of a run. -/
theorem balanced_of_run {T : Pump → Act → Prop} {p : Pump} (h : Run Pump.step T {} p) :
    Balanced p :=
  h.invariant Balanced (fun _ _ _ hI _ hs => hI.step hs) balanced_start

theorem Balanced.sequence_lt {p : Pump} (h : Balanced p) {e : LogEntry} (he : e ∈ p.emitted) :
    e.sequence < p.nextSeq := by
  have hmem := List.mem_map_of_mem (f := LogEntry.sequence) he
  rw [h.numbered] at hmem
  exact List.mem_range.1 hmem

theorem Balanced.nodup {p : Pump} (h : Balanced p) : p.emitted.Nodup := by
  have hnd : (p.emitted.map LogEntry.sequence).Nodup := by
    rw [h.numbered]
    exact List.nodup_range
  exact List.Nodup.of_map _ hnd

/-- A line that was emitted is in one place, once. -/
theorem Balanced.count_places {p : Pump} (h : Balanced p) {e : LogEntry} (he : e ∈ p.emitted) :
    p.places.count e = 1 := by
  rw [h.places.count_eq, List.count_eq_one_of_mem h.nodup he]

/-! ## The end of a job -/

/-- The lines in `early` have been taken out of the buffer by the time of the final `POST`. -/
structure Swept (early : List LogEntry) (p : Pump) : Prop where
  balanced : Balanced p
  known : ∀ e ∈ early, e ∈ p.emitted
  ending : p.tail ≠ .body
  swept : p.tail ≠ .cancelled → ∀ e ∈ early, e ∉ p.buf

theorem Swept.step {early : List LogEntry} {p p' : Pump} {a : Act} (h : Swept early p)
    (hs : p.step a = some p') : Swept early p' := by
  have hbal := h.balanced.step hs
  obtain ⟨hb, hknown, hending, hswept⟩ := h
  cases a with
  | emit stream content =>
    cases hs
    unfold Pump.emit at hbal ⊢
    split
    · exact ⟨hb, hknown, hending, hswept⟩
    · rename_i hne
      rw [if_neg hne] at hbal
      refine ⟨hbal, fun e he => List.mem_append_left _ (hknown e he), hending,
        fun ht e he hmem => ?_⟩
      -- the new line has a number of its own
      rcases List.mem_append.1 hmem with hmem | hmem
      · exact hswept ht e he hmem
      · have hlt := hb.sequence_lt (hknown e he)
        rw [List.mem_singleton.1 hmem] at hlt
        exact Nat.lt_irrefl _ hlt
  | tick =>
    simp only [Pump.step] at hs
    split at hs <;> cases hs
    exact ⟨hbal, hknown, hending, hswept⟩
  | done =>
    simp only [Pump.step] at hs
    split at hs <;> cases hs
    exact ⟨hbal, hknown, hending, hswept⟩
  | flush =>
    simp only [Pump.step] at hs
    split at hs
    · split at hs <;> cases hs
      · exact ⟨hbal, hknown, hending, hswept⟩
      · exact ⟨hbal, hknown, hending, fun _ e _ => by simp⟩
    · cases hs
  | answer =>
    simp only [Pump.step] at hs
    split at hs <;> cases hs
    exact ⟨hbal, hknown, hending, hswept⟩
  | abort =>
    simp only [Pump.step] at hs
    split at hs
    · split at hs <;> cases hs
      exact ⟨hbal, hknown, hending, hswept⟩
    · cases hs
  | pumpCancel =>
    simp only [Pump.step] at hs
    split at hs
    · rename_i hbody
      exact absurd hbody hending
    · cases hs
  | finalFlush =>
    simp only [Pump.step] at hs
    split at hs
    · split at hs
      · rename_i hbuf
        cases hs
        exact ⟨hbal, hknown, by simp, fun _ e _ => by simp [hbuf]⟩
      · cases hs
        exact ⟨hbal, hknown, by simp, fun _ e _ => by simp⟩
    · cases hs
  | finalAnswer =>
    simp only [Pump.step] at hs
    split at hs
    · rename_i batch htail
      cases hs
      exact ⟨hbal, hknown, by simp, fun _ => hswept (by simp [htail])⟩
    · cases hs

/-- At the end of a job: `early` was emitted before the deferred function of `runJob`, which
has returned, and the loop is in no `POST`. -/
inductive Ended (T : Pump → Act → Prop) : List LogEntry → Pump → Prop
  | intro {p₁ p₂ p₃ : Pump} : Run Pump.step T {} p₁ → T p₁ .pumpCancel →
      p₁.step .pumpCancel = some p₂ → Run Pump.step T p₂ p₃ → p₃.tail = .returned →
      p₃.inLoop = [] → Ended T p₁.emitted p₃

/-- Each of the lines is in exactly one `POST` that was carried to completion. -/
def PostedOnce (early : List LogEntry) (p : Pump) : Prop :=
  ∀ e ∈ early, p.delivered.countP (fun batch => decide (e ∈ batch)) = 1

/-- Every line emitted before the end is posted once. -/
def TailHolds (T : Pump → Act → Prop) : Prop :=
  ∀ early p, Ended T early p → PostedOnce early p

theorem countP_le_count_flatten (e : LogEntry) (batches : List (List LogEntry)) :
    batches.countP (fun batch => decide (e ∈ batch)) ≤ batches.flatten.count e := by
  induction batches with
  | nil => simp
  | cons batch batches ih =>
    rw [List.countP_cons, List.flatten_cons, List.count_append]
    by_cases he : e ∈ batch
    · have hpos := List.count_pos_iff.2 he
      simp only [he, decide_true, if_true]
      omega
    · simp only [he, decide_false, Bool.false_eq_true, if_false]
      omega

/-- A line that is in the batches once is in one of them. -/
theorem countP_eq_one {e : LogEntry} {batches : List (List LogEntry)}
    (h : batches.flatten.count e = 1) :
    batches.countP (fun batch => decide (e ∈ batch)) = 1 := by
  have hle := countP_le_count_flatten e batches
  have hmem : e ∈ batches.flatten := List.count_pos_iff.1 (by omega)
  obtain ⟨batch, hbatch, he⟩ := List.mem_flatten.1 hmem
  have hpos : 0 < batches.countP fun batch => decide (e ∈ batch) :=
    List.countP_pos_iff.2 ⟨batch, hbatch, decide_eq_true he⟩
  omega

theorem Ended.swept {T : Pump → Act → Prop} {early : List LogEntry} {p : Pump}
    (h : Ended T early p) : Swept early p ∧ p.tail = .returned ∧ p.inLoop = [] := by
  cases h with
  | intro h₁ ht hc h₃ htail hloop =>
    rename_i p₁ p₂
    have hb := balanced_of_run h₁
    have hs₂ : Swept p₁.emitted p₂ := by
      have hb₂ := hb.step hc
      simp only [Pump.step] at hc
      split at hc <;> cases hc
      exact ⟨hb₂, fun e he => he, by simp, fun hne => absurd rfl hne⟩
    exact ⟨h₃.invariant (Swept p₁.emitted) (fun _ _ _ hI _ hs => hI.step hs) hs₂, htail, hloop⟩

/-- At the end of a job a line emitted before was posted once, unless its `POST` was
aborted. -/
theorem postedOnce_iff {T : Pump → Act → Prop} {early : List LogEntry} {p : Pump}
    (h : Ended T early p) :
    PostedOnce early p ↔ ∀ batch ∈ p.aborted, ∀ e ∈ batch, e ∉ early := by
  obtain ⟨hswept, htail, hloop⟩ := h.swept
  have hone : ∀ e ∈ early, p.delivered.flatten.count e + p.aborted.flatten.count e = 1 := by
    intro e he
    have hcount := hswept.balanced.count_places (hswept.known e he)
    have hbuf := List.count_eq_zero.2 (hswept.swept (by simp [htail]) e he)
    have hin : p.inTail = [] := by rw [Pump.inTail, htail]
    simp only [Pump.places, hloop, hin, List.count_append, List.count_nil] at hcount
    omega
  constructor
  · intro hposted batch hbatch e hmem he
    have hpos := List.count_pos_iff.2 (List.mem_flatten.2 ⟨batch, hbatch, hmem⟩)
    have hle := countP_le_count_flatten e p.delivered
    have hcount := hone e he
    rw [hposted e he] at hle
    omega
  · intro hnone e he
    refine countP_eq_one ?_
    have hzero : p.aborted.flatten.count e = 0 := by
      refine List.count_eq_zero.2 fun hmem => ?_
      obtain ⟨batch, hbatch, hin⟩ := List.mem_flatten.1 hmem
      exact hnone batch hbatch e hin he
    have hcount := hone e he
    omega

/-- `runJob` cancels the loop while it waits for its ticker, and the ticker gets no other
turn. -/
def Undisturbed (p : Pump) (a : Act) : Prop :=
  (a = .pumpCancel → p.loop = .waiting) ∧ (a = .tick → p.tail = .body)

instance (p : Pump) (a : Act) : Decidable (Undisturbed p a) :=
  inferInstanceAs (Decidable (_ ∧ _))

/-- No `POST` has been aborted, and none will be. -/
structure Unaborted (p : Pump) : Prop where
  aborted : p.aborted = []
  quiet : p.tail ≠ .body → p.loop = .waiting ∨ p.loop = .returned

theorem Unaborted.step {p p' : Pump} {a : Act} (h : Unaborted p) (ht : Undisturbed p a)
    (hs : p.step a = some p') : Unaborted p' := by
  obtain ⟨haborted, hquiet⟩ := h
  cases a with
  | emit stream content =>
    cases hs
    unfold Pump.emit
    split <;> exact ⟨haborted, hquiet⟩
  | tick =>
    simp only [Pump.step] at hs
    split at hs <;> cases hs
    exact ⟨haborted, fun hne => absurd (ht.2 rfl) hne⟩
  | done =>
    simp only [Pump.step] at hs
    split at hs <;> cases hs
    exact ⟨haborted, fun _ => Or.inr rfl⟩
  | flush =>
    simp only [Pump.step] at hs
    split at hs
    · rename_i hloop
      have hbody : p.tail = .body := by
        by_contra hne
        simpa [hloop] using hquiet hne
      split at hs <;> cases hs
      · exact ⟨haborted, fun hne => absurd hbody hne⟩
      · exact ⟨haborted, fun hne => absurd hbody hne⟩
    · cases hs
  | answer =>
    simp only [Pump.step] at hs
    split at hs <;> cases hs
    exact ⟨haborted, fun _ => Or.inl rfl⟩
  | abort =>
    simp only [Pump.step] at hs
    split at hs
    · rename_i batch hloop
      split at hs <;> cases hs
      rename_i hcancelled
      simp only [Pump.isCancelled, decide_eq_true_eq] at hcancelled
      simpa [hloop] using hquiet hcancelled
    · cases hs
  | pumpCancel =>
    simp only [Pump.step] at hs
    split at hs <;> cases hs
    exact ⟨haborted, fun _ => Or.inl (ht.1 rfl)⟩
  | finalFlush =>
    simp only [Pump.step] at hs
    split at hs
    · rename_i htail
      have hnow := hquiet (by simp [htail])
      split at hs <;> cases hs
      · exact ⟨haborted, fun _ => hnow⟩
      · exact ⟨haborted, fun _ => hnow⟩
    · cases hs
  | finalAnswer =>
    simp only [Pump.step] at hs
    split at hs
    · rename_i batch htail
      cases hs
      exact ⟨haborted, fun _ => hquiet (by simp [htail])⟩
    · cases hs

/-- **The tail of the log is posted** where the loop has no flush under way when it is
cancelled, and begins none after; and in general exactly where no `POST` with such a line is
aborted. -/
theorem tail_of_log_is_posted (early : List LogEntry) (p : Pump) :
    (Ended Undisturbed early p → PostedOnce early p) ∧ (Ended anyStep early p →
      (PostedOnce early p ↔ ∀ batch ∈ p.aborted, ∀ e ∈ batch, e ∉ early)) := by
  refine ⟨fun h => (postedOnce_iff h).2 ?_, fun h => postedOnce_iff h⟩
  have hnone : Unaborted p := by
    cases h with
    | intro h₁ ht hc h₃ _ _ =>
      have hu₁ := h₁.invariant Unaborted (fun _ _ _ hI ht hs => hI.step ht hs)
        ⟨rfl, fun hne => absurd rfl hne⟩
      exact h₃.invariant Unaborted (fun _ _ _ hI ht hs => hI.step ht hs) (hu₁.step ht hc)
  intro batch hbatch
  rw [hnone.aborted] at hbatch
  simp at hbatch

/-- A line of the container. -/
def sampleLine : GoString := "done".toUTF8.toList

/-- A line that the loop posts, and one that is still in the buffer when the job ends. -/
def tidyRun : List Act :=
  [.emit "stdout".toUTF8.toList sampleLine, .tick, .flush, .answer,
    .emit "stderr".toUTF8.toList sampleLine]

theorem tail_of_log_is_posted_at_tidyRun :
    ∃ early p, Ended Undisturbed early p ∧ early.length = 2 ∧ p.delivered.length = 2 ∧
      PostedOnce early p := by
  obtain ⟨p₁, h₁, hrest⟩ := Option.bind_eq_some_iff.1 (show
    (play Pump.step (fun p a => decide (Undisturbed p a)) {} tidyRun).bind (fun p₁ =>
      (p₁.step .pumpCancel).bind fun p₂ =>
        (play Pump.step (fun p a => decide (Undisturbed p a)) p₂
          [.done, .finalFlush, .finalAnswer]).map fun p₃ =>
            (decide (Undisturbed p₁ .pumpCancel), decide (p₃.tail = .returned),
              decide (p₃.inLoop = []), p₁.emitted.length, p₃.delivered.length)) =
      some (true, true, true, 2, 2) by decide +kernel)
  obtain ⟨p₂, h₂, hrest⟩ := Option.bind_eq_some_iff.1 hrest
  obtain ⟨p₃, h₃, hall⟩ := Option.map_eq_some_iff.1 hrest
  simp only [Prod.mk.injEq, decide_eq_true_eq] at hall
  obtain ⟨hcancel, htail, hloop, hemitted, hdelivered⟩ := hall
  have hended : Ended Undisturbed p₁.emitted p₃ :=
    .intro (Run.of_play (fun _ _ h => of_decide_eq_true h) h₁) hcancel h₂
      (Run.of_play (fun _ _ h => of_decide_eq_true h) h₃) htail hloop
  exact ⟨_, _, hended, hemitted, hdelivered, (tail_of_log_is_posted _ _).1 hended⟩

/-- The ticker fires, and the job ends while the loop posts the line. -/
def cutOffRun : List Act := [.emit "stdout".toUTF8.toList sampleLine, .tick, .flush]

/-- **A flush that is under way loses its lines.** -/
theorem flush_under_way_is_lost : ¬ TailHolds anyStep := by
  intro h
  obtain ⟨p₁, h₁, hrest⟩ := Option.bind_eq_some_iff.1 (show
    (play Pump.step (fun _ _ => true) {} cutOffRun).bind (fun p₁ =>
      (p₁.step .pumpCancel).bind fun p₂ =>
        (play Pump.step (fun _ _ => true) p₂ [.abort, .finalFlush]).map fun p₃ =>
          (decide (p₃.tail = .returned), decide (p₃.inLoop = []), p₁.emitted,
            p₃.delivered)) =
      some (true, true, [⟨"stdout".toUTF8.toList, sampleLine, 0⟩], []) by
    decide +kernel)
  obtain ⟨p₂, h₂, hrest⟩ := Option.bind_eq_some_iff.1 hrest
  obtain ⟨p₃, h₃, hall⟩ := Option.map_eq_some_iff.1 hrest
  obtain ⟨htail, hall⟩ := Prod.mk.inj hall
  obtain ⟨hloop, hall⟩ := Prod.mk.inj hall
  obtain ⟨hemitted, hdelivered⟩ := Prod.mk.inj hall
  have hended : Ended anyStep p₁.emitted p₃ :=
    .intro (Run.of_play (fun _ _ _ => trivial) h₁) trivial h₂
      (Run.of_play (fun _ _ _ => trivial) h₃) (of_decide_eq_true htail) (of_decide_eq_true hloop)
  have hposted := h _ _ hended ⟨"stdout".toUTF8.toList, sampleLine, 0⟩ (by rw [hemitted]; simp)
  rw [hdelivered] at hposted
  cases hposted

end GpuNetwork.Agent
