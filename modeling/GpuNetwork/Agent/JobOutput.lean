import GpuNetwork.Agent.LogPump
import GpuNetwork.ControlPlane.Api

/-!
# What a job writes to its log

The lines that `runJob`, the two phases of `DockerRunner` and `streamPipe` emit, and what
`push_logs` makes of the batches they are posted in.

* `scan`, `streamPipe` — the lines of a pipe.
* `JobEmits` — the lines of a job, in every order its two pipes allow.
* `runes` — the text that a string of Go is sent as.
* `entryIn?`, `accepts` — the validation of a batch, and what the database stores.
* `Fits` — the lines that go through.
-/

namespace GpuNetwork.Agent

/-- A literal of the source. -/
def go (text : String) : GoString := text.toUTF8.toList

/-! ## The lines of a pipe -/

/-- `bufio.ScanLines` over all that a pipe delivers; a line may end with the pipe. -/
def lines : GoString → List GoString
  | [] => []
  | b :: bs =>
    if b = 10 then [] :: lines bs
    else
      match lines bs with
      | [] => [[b]]
      | line :: rest => (b :: line) :: rest

/-- The limit of the buffer that `scanner.Buffer` sets. -/
def maxTokenSize : Nat := 1024 * 1024

/-- `dropCR`. -/
def dropCR (line : GoString) : GoString :=
  if line.getLast? = some 13 then line.dropLast else line

/-- The tokens of the scanner.  It stops at a line that does not fit its buffer, the line
feed included. -/
def scan (output : GoString) : List GoString :=
  ((lines output).takeWhile fun line => decide (line.length < maxTokenSize)).map dropCR

/-- `strings.TrimRight(line, "\r\n")`. -/
def trimRight (line : GoString) : GoString :=
  (line.reverse.dropWhile fun b => decide (b = 13) || decide (b = 10)).reverse

/-- A line as it is emitted: its stream and its content. -/
abbrev Line := GoString × GoString

/-- `streamPipe`. -/
def streamPipe (output stream : GoString) : List Line :=
  (((scan output).map trimRight).filter fun line => decide (line ≠ [])).map (stream, ·)

/-! ## The lines of a job -/

/-- Two goroutines emit at once. -/
inductive Interleaved {α : Type} : List α → List α → List α → Prop
  | nil : Interleaved [] [] []
  | left {a : α} {xs ys zs : List α} : Interleaved xs ys zs → Interleaved (a :: xs) ys (a :: zs)
  | right {a : α} {xs ys zs : List α} : Interleaved xs ys zs → Interleaved xs (a :: ys) (a :: zs)

def system (content : GoString) : Line := (go "system", content)

/-- `dockerPull`, with the error it returns. -/
inductive PullEmits (image : GoString) : Option GoString → List Line → Prop
  | unstarted {e : GoString} :
      PullEmits image (some e) [system (go "Pulling image " ++ image ++ go "...")]
  | failed {out err e : GoString} {zs : List Line} :
      Interleaved (streamPipe out (go "system")) (streamPipe err (go "system")) zs →
      PullEmits image (some e) (system (go "Pulling image " ++ image ++ go "...") :: zs)
  | ready {out err : GoString} {zs : List Line} :
      Interleaved (streamPipe out (go "system")) (streamPipe err (go "system")) zs →
      PullEmits image none (system (go "Pulling image " ++ image ++ go "...") ::
        (zs ++ [system (go "Image " ++ image ++ go " ready")]))

/-- `dockerRun`, with the error it returns. -/
inductive RunEmits : Option GoString → List Line → Prop
  | unstarted {e : GoString} :
      RunEmits (some e) [system (go "Starting container with --gpus all")]
  | ended {out err : GoString} {runErr : Option GoString} {zs : List Line} :
      Interleaved (streamPipe out (go "stdout")) (streamPipe err (go "stderr")) zs →
      RunEmits runErr (system (go "Starting container with --gpus all") :: zs)

/-- `DockerRunner.Run`. -/
inductive RunnerEmits (image : GoString) : Option GoString → List Line → Prop
  | pullFailed {e : GoString} {zs : List Line} :
      PullEmits image (some e) zs → RunnerEmits image (some e) zs
  | ran {runErr : Option GoString} {zs zs' : List Line} :
      PullEmits image none zs → RunEmits runErr zs' → RunnerEmits image runErr (zs ++ zs')

/-- What a job is told to run, and where. -/
structure Assigned where
  jobId : GoString
  nodeId : GoString
  image : GoString

/-- `runJob`, around the lines of its runner. -/
def jobLines (job : Assigned) (runErr : Option GoString) (cancelled : Bool) (exitCode : Int)
    (zs : List Line) : List Line :=
  system (go "Job " ++ job.jobId ++ go " assigned to node " ++ job.nodeId) ::
    (zs ++ (runErr.map fun e => system (go "Runner error: " ++ e)).toList ++
      (if cancelled then [system (go "Cancelled by user request")] else []) ++
      [system (go "Container exited (code " ++ go (toString exitCode) ++ go ")")])

/-- The lines that a job emits. -/
inductive JobEmits (job : Assigned) : List Line → Prop
  | intro {runErr : Option GoString} {cancelled : Bool} {exitCode : Int} {zs : List Line} :
      RunnerEmits job.image runErr zs →
      JobEmits job (jobLines job runErr cancelled exitCode zs)

/-! ## On the wire -/

/-- A continuation byte in the given range. -/
def inRange (lo hi b : UInt8) : Bool := decide (lo ≤ b) && decide (b ≤ hi)

/-- The character that begins with the byte, and how many bytes of the rest belong to it;
`none` if the bytes are no UTF-8. -/
def rune? (b : UInt8) (rest : GoString) : Option (Char × Nat) :=
  let tail := fun b : UInt8 => b.toNat % 64
  let two := fun c : UInt8 => some (Char.ofNat (b.toNat % 32 * 64 + tail c), 1)
  let three := fun c d : UInt8 =>
    some (Char.ofNat ((b.toNat % 16 * 64 + tail c) * 64 + tail d), 2)
  let four := fun c d e : UInt8 =>
    some (Char.ofNat (((b.toNat % 8 * 64 + tail c) * 64 + tail d) * 64 + tail e), 3)
  if b < 0x80 then some (Char.ofNat b.toNat, 0)
  else
    match rest with
    | c :: d :: e :: _ =>
      if inRange 0xC2 0xDF b && inRange 0x80 0xBF c then two c
      else if three? b c d then three c d
      else if four? b c d e then four c d e
      else none
    | [c, d] =>
      if inRange 0xC2 0xDF b && inRange 0x80 0xBF c then two c
      else if three? b c d then three c d
      else none
    | [c] => if inRange 0xC2 0xDF b && inRange 0x80 0xBF c then two c else none
    | [] => none
where
  /-- A sequence of three bytes: no overlong form, no surrogate. -/
  three? (b c d : UInt8) : Bool :=
    inRange 0xE0 0xEF b && inRange 0x80 0xBF d &&
      inRange (if b = 0xE0 then 0xA0 else 0x80) (if b = 0xED then 0x9F else 0xBF) c
  /-- A sequence of four bytes: no overlong form, nothing beyond the last character. -/
  four? (b c d e : UInt8) : Bool :=
    inRange 0xF0 0xF4 b && inRange 0x80 0xBF d && inRange 0x80 0xBF e &&
      inRange (if b = 0xF0 then 0x90 else 0x80) (if b = 0xF4 then 0x8F else 0xBF) c

/-- The text from the given number of bytes on.  A byte that is no UTF-8 is sent as U+FFFD. -/
def runesFrom : Nat → GoString → Str
  | _, [] => []
  | n + 1, _ :: bs => runesFrom n bs
  | 0, b :: bs =>
    match rune? b bs with
    | some (c, n) => c :: runesFrom n bs
    | none => '\uFFFD' :: runesFrom 0 bs

/-- The text a string of Go has in the JSON of `json.Marshal`. -/
def runes (s : GoString) : Str := runesFrom 0 s

/-! ## At the control plane -/

/-- `Literal["stdout", "stderr", "system"]`. -/
def stream? (text : Str) : Option LogStream :=
  if text = "stdout".toList then some .stdout
  else if text = "stderr".toList then some .stderr
  else if text = "system".toList then some .system
  else none

/-- `JobLogEntryIn`, from one entry of the body. -/
def entryIn? (e : LogEntry) : Option JobLogEntryIn :=
  match stream? (runes e.stream) with
  | none => none
  | some stream =>
    if h : 1 ≤ (runes e.content).length ∧ (runes e.content).length ≤ 64 * 1024 then
      some
        { stream, content := runes e.content, sequence := e.sequence, content_length := h
          sequence_nonneg := Int.natCast_nonneg _ }
    else none

/-- The text of PostgreSQL has no NUL. -/
def storable (e : JobLogEntryIn) : Bool := !e.content.contains '\x00'

/-- `push_logs` validates the batch, all of it or none, and the database stores it. -/
def accepts (batch : List LogEntry) : Bool := (batch.mapM entryIn?).any fun es => es.all storable

/-- The line has at most 65536 characters, and no NUL. -/
def Fits (content : GoString) : Prop :=
  (runes content).length ≤ 64 * 1024 ∧ '\x00' ∉ runes content

instance (content : GoString) : Decidable (Fits content) := inferInstanceAs (Decidable (_ ∧ _))

/-- The three streams. -/
def streams : List GoString := [go "stdout", go "stderr", go "system"]

/-! ## What a job emits -/

/-- The line goes to one of the three streams, and is not empty. -/
def Tagged (line : Line) : Prop := line.1 ∈ streams ∧ line.2 ≠ []

theorem tagged_system {content : GoString} (h : content ≠ []) : Tagged (system content) :=
  ⟨by simp [system, streams], h⟩

theorem tagged_streamPipe {output stream : GoString} (hs : stream ∈ streams) :
    ∀ line ∈ streamPipe output stream, Tagged line := by
  intro line hline
  obtain ⟨content, hcontent, rfl⟩ := List.mem_map.1 hline
  exact ⟨hs, of_decide_eq_true (List.mem_filter.1 hcontent).2⟩

theorem Interleaved.mem {α : Type} {xs ys zs : List α} (h : Interleaved xs ys zs) :
    ∀ a ∈ zs, a ∈ xs ∨ a ∈ ys := by
  induction h with
  | nil => simp
  | left _ ih =>
    intro b hb
    rcases List.mem_cons.1 hb with rfl | hb
    · exact Or.inl (List.mem_cons_self ..)
    · exact (ih b hb).imp (List.mem_cons_of_mem _) id
  | right _ ih =>
    intro b hb
    rcases List.mem_cons.1 hb with rfl | hb
    · exact Or.inr (List.mem_cons_self ..)
    · exact (ih b hb).imp id (List.mem_cons_of_mem _)

theorem tagged_interleaved {out err s s' : GoString} {zs : List Line} (hs : s ∈ streams)
    (hs' : s' ∈ streams) (h : Interleaved (streamPipe out s) (streamPipe err s') zs) :
    ∀ line ∈ zs, Tagged line :=
  fun line hline => (h.mem line hline).elim (tagged_streamPipe hs line)
    (tagged_streamPipe hs' line)

theorem go_append_ne_nil {text : String} (h : go text ≠ []) (rest : GoString) :
    go text ++ rest ≠ [] := by
  simp [h]

theorem tagged_pull {image : GoString} {e : Option GoString} {zs : List Line}
    (h : PullEmits image e zs) : ∀ line ∈ zs, Tagged line := by
  have hpulling : Tagged (system (go "Pulling image " ++ image ++ go "...")) := by
    refine tagged_system ?_
    rw [List.append_assoc]
    exact go_append_ne_nil (by decide +kernel) _
  have hsystem : go "system" ∈ streams := by simp [streams]
  cases h with
  | unstarted =>
    intro line hline
    rw [List.mem_singleton.1 hline]
    exact hpulling
  | failed hboth =>
    intro line hline
    rcases List.mem_cons.1 hline with rfl | hline
    · exact hpulling
    · exact tagged_interleaved hsystem hsystem hboth line hline
  | ready hboth =>
    intro line hline
    rcases List.mem_cons.1 hline with rfl | hline
    · exact hpulling
    rcases List.mem_append.1 hline with hline | hline
    · exact tagged_interleaved hsystem hsystem hboth line hline
    · rw [List.mem_singleton.1 hline]
      refine tagged_system ?_
      rw [List.append_assoc]
      exact go_append_ne_nil (by decide +kernel) _

theorem tagged_run {e : Option GoString} {zs : List Line} (h : RunEmits e zs) :
    ∀ line ∈ zs, Tagged line := by
  have hstarting : Tagged (system (go "Starting container with --gpus all")) :=
    tagged_system (by decide +kernel)
  cases h with
  | unstarted =>
    intro line hline
    rw [List.mem_singleton.1 hline]
    exact hstarting
  | ended hboth =>
    intro line hline
    rcases List.mem_cons.1 hline with rfl | hline
    · exact hstarting
    · exact tagged_interleaved (by simp [streams]) (by simp [streams]) hboth line hline

/-- Every line of a job goes to one of the three streams, and none is empty. -/
theorem tagged_of_jobEmits {job : Assigned} {zs : List Line} (h : JobEmits job zs) :
    ∀ line ∈ zs, Tagged line := by
  cases h with
  | intro hrunner =>
    rename_i runErr cancelled exitCode ws
    have hws : ∀ line ∈ ws, Tagged line := by
      cases hrunner with
      | pullFailed hp => exact tagged_pull hp
      | ran hp hr =>
        intro line hline
        rcases List.mem_append.1 hline with hline | hline
        · exact tagged_pull hp line hline
        · exact tagged_run hr line hline
    intro line hline
    rw [jobLines, List.mem_cons, List.mem_append, List.mem_append, List.mem_append] at hline
    rcases hline with rfl | ((hline | hline) | hline) | hline
    · refine tagged_system ?_
      rw [List.append_assoc, List.append_assoc]
      exact go_append_ne_nil (by decide +kernel) _
    · exact hws line hline
    · rw [Option.mem_toList, Option.map_eq_some_iff] at hline
      obtain ⟨e, -, rfl⟩ := hline
      exact tagged_system (go_append_ne_nil (by decide +kernel) _)
    · split at hline
      · rw [List.mem_singleton.1 hline]
        exact tagged_system (by decide +kernel)
      · simp at hline
    · rw [List.mem_singleton.1 hline]
      refine tagged_system ?_
      rw [List.append_assoc]
      exact go_append_ne_nil (by decide +kernel) _

/-! ## What the control plane accepts -/

theorem runes_ne_nil {s : GoString} (h : s ≠ []) : runes s ≠ [] := by
  cases s with
  | nil => exact absurd rfl h
  | cons b bs =>
    rw [runes, runesFrom]
    split <;> simp

theorem stream?_runes {s : GoString} (h : s ∈ streams) :
    ∃ stream, stream? (runes s) = some stream := by
  have hall : ∀ s ∈ streams, (stream? (runes s)).isSome = true := by decide +kernel
  exact Option.isSome_iff_exists.1 (hall s h)

/-- An entry of a job passes exactly when its line fits. -/
theorem accepted_entry_iff {e : LogEntry} (h : Tagged (e.stream, e.content)) :
    (∃ entry, entryIn? e = some entry ∧ storable entry = true) ↔ Fits e.content := by
  obtain ⟨stream, hstream⟩ := stream?_runes h.1
  have hpos : 1 ≤ (runes e.content).length := List.length_pos_of_ne_nil (runes_ne_nil h.2)
  unfold entryIn?
  rw [hstream]
  constructor
  · rintro ⟨entry, hentry, hstore⟩
    dsimp only at hentry
    split at hentry
    · rename_i hlen
      cases hentry
      refine ⟨hlen.2, ?_⟩
      simpa [storable] using hstore
    · cases hentry
  · rintro ⟨hlen, hnul⟩
    refine ⟨_, dif_pos ⟨hpos, hlen⟩, ?_⟩
    simpa [storable] using hnul

/-- A batch is accepted exactly when each of its entries is. -/
theorem accepts_iff (batch : List LogEntry) : accepts batch = true ↔
    ∀ e ∈ batch, ∃ entry, entryIn? e = some entry ∧ storable entry = true := by
  induction batch with
  | nil => simp [accepts]
  | cons e batch ih =>
    have hcons : accepts (e :: batch) =
        ((entryIn? e).any storable && accepts batch) := by
      unfold accepts
      rw [List.mapM_cons]
      cases entryIn? e with
      | none => rfl
      | some entry => cases batch.mapM entryIn? <;> simp
    rw [hcons, Bool.and_eq_true, ih, List.forall_mem_cons, Option.any_eq_true]

/-! ## Runs -/

/-- The batches that were posted. -/
def Pump.posted (p : Pump) : List (List LogEntry) := p.delivered ++ p.aborted

/-- At the end of a job: what the pump was given are the lines of the job. -/
structure Logged (job : Assigned) (p : Pump) : Prop where
  ended : Ended Machine.anyStep p.emitted p
  emits : JobEmits job (p.emitted.map fun e => (e.stream, e.content))

/-- Every batch that a job posts is accepted. -/
def NeverRejected : Prop :=
  ∀ job p, Logged job p → ∀ batch ∈ p.posted, accepts batch = true

theorem mem_posted_iff {p : Pump} (h : Ended Machine.anyStep p.emitted p) {e : LogEntry} :
    (∃ batch ∈ p.posted, e ∈ batch) ↔ e ∈ p.emitted := by
  obtain ⟨hswept, htail, hloop⟩ := h.swept
  have hin : p.inTail = [] := by rw [Pump.inTail, htail]
  have hmem : ∀ x, x ∈ p.places ↔ x ∈ p.emitted := fun x => hswept.balanced.places.mem_iff
  -- nothing is left in the buffer
  have hbuf : p.buf = [] := by
    refine List.eq_nil_iff_forall_not_mem.2 fun x hx => ?_
    refine hswept.swept (by simp [htail]) x ?_ hx
    rw [← hmem]
    simp [Pump.places, hx]
  rw [← hmem]
  simp only [Pump.places, Pump.posted, hloop, hin, hbuf, List.append_nil, List.mem_append,
    List.mem_flatten]
  constructor
  · rintro ⟨batch, hb | hb, he⟩
    · exact Or.inl ⟨batch, hb, he⟩
    · exact Or.inr ⟨batch, hb, he⟩
  · rintro (⟨batch, hb, he⟩ | ⟨batch, hb, he⟩)
    · exact ⟨batch, Or.inl hb, he⟩
    · exact ⟨batch, Or.inr hb, he⟩

/-- **The batches of a job are accepted exactly when all of its lines fit.** -/
theorem batches_accepted_iff_lines_fit {job : Assigned} {p : Pump} (h : Logged job p) :
    (∀ batch ∈ p.posted, accepts batch = true) ↔ ∀ e ∈ p.emitted, Fits e.content := by
  have htagged : ∀ e ∈ p.emitted, Tagged (e.stream, e.content) := fun e he =>
    tagged_of_jobEmits h.emits _ (List.mem_map_of_mem he)
  constructor
  · intro hall e he
    obtain ⟨batch, hbatch, hmem⟩ := (mem_posted_iff h.ended).2 he
    exact (accepted_entry_iff (htagged e he)).1 ((accepts_iff batch).1 (hall batch hbatch) e hmem)
  · intro hfits batch hbatch
    refine (accepts_iff batch).2 fun e hmem => ?_
    have he := (mem_posted_iff h.ended).1 ⟨batch, hbatch, hmem⟩
    exact (accepted_entry_iff (htagged e he)).2 (hfits e he)

/-- A job on a node. -/
def sampleAssigned : Assigned := ⟨go "job", go "node", go "image"⟩

/-- The lines of a job whose container writes `output`. -/
def outputLines (output : GoString) : List Line :=
  jobLines sampleAssigned none false 0
    ((system (go "Pulling image " ++ go "image" ++ go "...") ::
        ([] ++ [system (go "Image " ++ go "image" ++ go " ready")])) ++
      system (go "Starting container with --gpus all") :: streamPipe output (go "stdout"))

theorem interleaved_left {α : Type} (xs : List α) : Interleaved xs [] xs := by
  induction xs with
  | nil => exact .nil
  | cons x xs ih => exact .left ih

theorem jobEmits_outputLines (output : GoString) :
    JobEmits sampleAssigned (outputLines output) :=
  .intro (.ran (@PullEmits.ready _ [] [] _ .nil)
    (@RunEmits.ended _ [] _ _ (interleaved_left (streamPipe output (go "stdout")))))

/-- The pump of a job that emits the lines and posts them with the final flush. -/
def postedAtEnd (zs : List Line) : Option (Pump × Pump × Pump) :=
  (Machine.play Pump.step (fun _ _ => true) {} (zs.map fun line => .emit line.1 line.2)).bind
    fun p₁ => (p₁.step .pumpCancel).bind fun p₂ =>
      (Machine.play Pump.step (fun _ _ => true) p₂ [.finalFlush, .finalAnswer]).map
        fun p₃ => (p₁, p₂, p₃)

theorem logged_of_postedAtEnd {zs : List Line} {p₁ p₂ p₃ : Pump}
    (h : postedAtEnd zs = some (p₁, p₂, p₃)) {job : Assigned} (hjob : JobEmits job zs)
    (hlines : p₃.emitted.map (fun e => (e.stream, e.content)) = zs)
    (hsame : p₁.emitted = p₃.emitted) (htail : p₃.tail = .returned) (hloop : p₃.inLoop = []) :
    Logged job p₃ := by
  obtain ⟨q₁, h₁, hrest⟩ := Option.bind_eq_some_iff.1 h
  obtain ⟨q₂, h₂, hrest⟩ := Option.bind_eq_some_iff.1 hrest
  obtain ⟨q₃, h₃, he⟩ := Option.map_eq_some_iff.1 hrest
  cases he
  refine ⟨?_, by rw [hlines]; exact hjob⟩
  rw [← hsame]
  exact .intro (Machine.Run.of_play (fun _ _ _ => trivial) h₁) trivial h₂
    (Machine.Run.of_play (fun _ _ _ => trivial) h₃) htail hloop

/-- What is to be checked of a run that posts the lines at its end. -/
def logs (zs : List Line) (x : Pump × Pump × Pump) : Bool :=
  decide (x.2.2.emitted.map (fun e => (e.stream, e.content)) = zs) &&
    decide (x.1.emitted = x.2.2.emitted) && decide (x.2.2.tail = .returned) &&
    decide (x.2.2.inLoop = [])

theorem logged_outputLines {output : GoString} {x : Pump × Pump × Pump}
    (h : postedAtEnd (outputLines output) = some x) (hlogs : logs (outputLines output) x = true) :
    Logged sampleAssigned x.2.2 := by
  obtain ⟨p₁, p₂, p₃⟩ := x
  simp only [logs, Bool.and_eq_true, decide_eq_true_eq] at hlogs
  obtain ⟨⟨⟨hlines, hsame⟩, htail⟩, hloop⟩ := hlogs
  exact logged_of_postedAtEnd h (jobEmits_outputLines output) hlines hsame htail hloop

theorem batches_accepted_at_hello :
    ∃ p : Pump, (∀ batch ∈ p.posted, accepts batch = true) ∧ p.emitted ≠ [] := by
  obtain ⟨x, hx, hfacts⟩ := Option.map_eq_some_iff.1 (show
    (postedAtEnd (outputLines (go "hello\n"))).map (fun x =>
      (logs (outputLines (go "hello\n")) x,
        x.2.2.emitted.all fun e => decide (Fits e.content), x.2.2.emitted.isEmpty)) =
      some (true, true, false) by decide +kernel)
  obtain ⟨hlogs, hrest⟩ := Prod.mk.inj hfacts
  obtain ⟨hfits, hne⟩ := Prod.mk.inj hrest
  refine ⟨x.2.2, (batches_accepted_iff_lines_fit (logged_outputLines hx hlogs)).2 fun e he => ?_,
    by simpa using hne⟩
  exact of_decide_eq_true (List.all_eq_true.1 hfits e he)

/-- **One line with a NUL takes the other lines of its batch with it.** -/
theorem batch_with_nul_is_rejected : ¬ NeverRejected := by
  intro h
  obtain ⟨x, hx, hfacts⟩ := Option.map_eq_some_iff.1 (show
    (postedAtEnd (outputLines [97, 0, 10])).map (fun x =>
      (logs (outputLines [97, 0, 10]) x, x.2.2.posted.all accepts)) = some (true, false) by
    decide +kernel)
  obtain ⟨hlogs, hall⟩ := Prod.mk.inj hfacts
  have hok : x.2.2.posted.all accepts = true :=
    List.all_eq_true.2 (h sampleAssigned x.2.2 (logged_outputLines hx hlogs))
  rw [hok] at hall
  cases hall

end GpuNetwork.Agent
