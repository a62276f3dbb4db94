import GpuNetwork.Agent.JobOutput
import Mathlib.Data.List.DropRight

/-!
# The pipes of a container

`streamPipe` reads a pipe of the container through a `bufio.Scanner` and emits its lines.

* `Scanner`, `readPipe` — the scanner on what the pipe delivers, chunk by chunk;
  `streamChunks_eq` — the chunks do not matter.
* `forwarded` — the lines of a stream, without their carriage returns.
* `ForwardsWhole`, `stream_forwarded_iff` — when they are what is emitted.
-/

namespace GpuNetwork.Agent

/-! ## The scanner -/

/-- A `bufio.Scanner` that splits at line feeds. -/
structure Scanner where
  /-- The tokens it has returned. -/
  tokens : List GoString := []
  /-- What is in its buffer. -/
  pending : GoString := []
  /-- `ErrTooLong`: the buffer is full, and no line feed is in it. -/
  stopped : Bool := false

namespace Scanner

/-- One byte more. -/
def byte (s : Scanner) (b : UInt8) : Scanner :=
  if s.stopped then s
  else if b = 10 then { s with tokens := s.tokens ++ [dropCR s.pending], pending := [] }
  else
    { s with
      pending := s.pending ++ [b], stopped := decide (s.pending.length + 1 = maxTokenSize) }

/-- The end of the pipe: what is left is the last token. -/
def finish (s : Scanner) : List GoString :=
  if s.stopped = true ∨ s.pending = [] then s.tokens else s.tokens ++ [dropCR s.pending]

end Scanner

/-- The scanner when the pipe has delivered the chunks. -/
def readPipe (chunks : List GoString) : Scanner :=
  chunks.foldl (fun (s : Scanner) chunk => chunk.foldl Scanner.byte s) {}

/-- `streamPipe` on a pipe that delivers the chunks. -/
def streamChunks (chunks : List GoString) (stream : GoString) : List Line :=
  (((readPipe chunks).finish.map trimRight).filter fun line => decide (line ≠ [])).map (stream, ·)

/-! ## The lines of a stream -/

theorem lines_of_not_mem {p : GoString} (h : 10 ∉ p) (hne : p ≠ []) : lines p = [p] := by
  induction p with
  | nil => exact absurd rfl hne
  | cons b bs ih =>
    rw [List.mem_cons, not_or] at h
    rw [lines, if_neg (Ne.symm h.1)]
    by_cases hbs : bs = []
    · subst hbs
      rfl
    · rw [ih h.2 hbs]

theorem lines_append_feed {p : GoString} (h : 10 ∉ p) (bs : GoString) :
    lines (p ++ 10 :: bs) = p :: lines bs := by
  induction p with
  | nil => rw [List.nil_append, lines, if_pos rfl]
  | cons b p ih =>
    rw [List.mem_cons, not_or] at h
    rw [List.cons_append, lines, if_neg (Ne.symm h.1), ih h.2]

/-- The first line goes on where there was no line feed yet. -/
theorem lines_append {p : GoString} (h : 10 ∉ p) (hne : p ≠ []) (bs : GoString) :
    ∃ r rest, lines (p ++ bs) = (p ++ r) :: rest := by
  induction p with
  | nil => exact absurd rfl hne
  | cons b p ih =>
    rw [List.mem_cons, not_or] at h
    rw [List.cons_append, lines, if_neg (Ne.symm h.1)]
    by_cases hp : p = []
    · subst hp
      rw [List.nil_append]
      cases lines bs with
      | nil => exact ⟨[], [], rfl⟩
      | cons line rest => exact ⟨line, rest, rfl⟩
    · obtain ⟨r, rest, hr⟩ := ih h.2 hp
      rw [hr]
      exact ⟨r, rest, rfl⟩

theorem not_mem_lines {bs : GoString} : ∀ line ∈ lines bs, 10 ∉ line := by
  induction bs with
  | nil => simp [lines]
  | cons b bs ih =>
    rw [lines]
    split
    · exact List.forall_mem_cons.2 ⟨by simp, ih⟩
    · rename_i hb
      split
      · simpa using Ne.symm hb
      · rename_i line rest hlines
        rw [hlines] at ih
        obtain ⟨hline, hrest⟩ := List.forall_mem_cons.1 ih
        refine List.forall_mem_cons.2 ⟨?_, hrest⟩
        rw [List.mem_cons, not_or]
        exact ⟨Ne.symm hb, hline⟩

/-! ## What the scanner returns -/

/-- Every line fits the buffer of the scanner, its line feed included. -/
def LinesFit (output : GoString) : Prop := ∀ line ∈ lines output, line.length < maxTokenSize

theorem stays_stopped (tokens p : List _) (bytes : GoString) :
    bytes.foldl Scanner.byte ⟨tokens, p, true⟩ = ⟨tokens, p, true⟩ := by
  induction bytes with
  | nil => rfl
  | cons c bytes ih => exact ih

/-- The scanner returns the tokens of what it has in its buffer and what is still to come, and
stops before the end at a line that does not fit. -/
theorem scanner_foldl (bytes p : GoString) (tokens : List GoString) (hp : 10 ∉ p)
    (hlen : p.length < maxTokenSize) :
    (bytes.foldl Scanner.byte ⟨tokens, p, false⟩).finish = tokens ++ scan (p ++ bytes) ∧
      ((bytes.foldl Scanner.byte ⟨tokens, p, false⟩).stopped = false ↔ LinesFit (p ++ bytes)) := by
  induction bytes generalizing p tokens with
  | nil =>
    rw [List.append_nil, List.foldl_nil, Scanner.finish, scan, LinesFit]
    by_cases hne : p = []
    · subst hne
      simp [lines]
    · rw [if_neg (by simp [hne]), lines_of_not_mem hp hne, List.takeWhile_cons_of_pos
        (by simp [hlen])]
      exact ⟨rfl, by simp [hlen]⟩
  | cons b bytes ih =>
    rw [List.foldl_cons]
    by_cases hb : b = 10
    · subst hb
      have hbyte : Scanner.byte ⟨tokens, p, false⟩ 10 = ⟨tokens ++ [dropCR p], [], false⟩ := rfl
      obtain ⟨hfinish, hstopped⟩ := ih [] (tokens ++ [dropCR p]) (by simp) (by decide)
      rw [hbyte, hfinish, hstopped, List.append_assoc, scan, scan, LinesFit, LinesFit,
        lines_append_feed hp, List.takeWhile_cons_of_pos (by simp [hlen]), List.forall_mem_cons]
      exact ⟨rfl, fun h => ⟨hlen, h⟩, fun h => h.2⟩
    · have hpb : 10 ∉ p ++ [b] := by
        rw [List.mem_append, List.mem_singleton, not_or]
        exact ⟨hp, Ne.symm hb⟩
      have hbyte : Scanner.byte ⟨tokens, p, false⟩ b =
          ⟨tokens, p ++ [b], decide (p.length + 1 = maxTokenSize)⟩ := by
        simp [Scanner.byte, hb]
      have happ : p ++ b :: bytes = (p ++ [b]) ++ bytes := by simp
      rw [hbyte, happ]
      by_cases hfull : p.length + 1 = maxTokenSize
      · -- the buffer is full: the first line does not fit
        obtain ⟨r, rest, hlines⟩ := lines_append hpb (by simp) bytes
        have hlong : ¬ (p ++ [b] ++ r).length < maxTokenSize := by
          simp only [List.length_append, List.length_singleton]
          omega
        rw [decide_eq_true hfull, stays_stopped, Scanner.finish, if_pos (Or.inl rfl), scan,
          LinesFit,
          hlines, List.takeWhile_cons_of_neg (by simpa using hlong), List.map_nil, List.append_nil,
          List.forall_mem_cons]
        exact ⟨rfl, fun h => absurd h (by simp), fun h => absurd h.1 hlong⟩
      · have hlt : (p ++ [b]).length < maxTokenSize := by
          simp only [List.length_append, List.length_singleton]
          omega
        rw [decide_eq_false hfull]
        exact ih (p ++ [b]) tokens hpb hlt

theorem readPipe_eq (chunks : List GoString) :
    readPipe chunks = chunks.flatten.foldl Scanner.byte {} := by
  rw [readPipe, List.foldl_flatten]

/-- **The chunks do not matter.** -/
theorem streamChunks_eq (chunks : List GoString) (stream : GoString) :
    streamChunks chunks stream = streamPipe chunks.flatten stream := by
  rw [streamChunks, readPipe_eq,
    (scanner_foldl chunks.flatten [] [] (by simp) (by decide)).1, streamPipe]
  rfl

theorem not_stopped_iff (chunks : List GoString) :
    (readPipe chunks).stopped = false ↔ LinesFit chunks.flatten := by
  rw [readPipe_eq]
  exact (scanner_foldl chunks.flatten [] [] (by simp) (by decide)).2

theorem scan_of_fit {output : GoString} (h : LinesFit output) :
    scan output = (lines output).map dropCR := by
  have hall : (lines output).takeWhile (fun line => decide (line.length < maxTokenSize)) =
      lines output := List.takeWhile_eq_self_iff.2 fun line hline => decide_eq_true (h line hline)
  rw [scan, hall]

/-! ## Carriage returns -/

/-- A line without its carriage returns. -/
def stripped (line : GoString) : GoString := line.filter fun b => decide (b ≠ 13)

/-- The lines of a stream, in order, without their carriage returns and without those that are
empty. -/
def forwarded (output stream : GoString) : List Line :=
  (((lines output).map stripped).filter fun line => decide (line ≠ [])).map (stream, ·)

/-- The line has carriage returns at its end only. -/
def EndsInReturns (line : GoString) : Prop :=
  ∃ (text : GoString) (n : Nat), line = text ++ List.replicate n 13 ∧ 13 ∉ text

theorem trimRight_eq (line : GoString) :
    trimRight line = line.rdropWhile fun b => decide (b = 13) || decide (b = 10) := rfl

theorem trimRight_append_return (line : GoString) : trimRight (line ++ [13]) = trimRight line := by
  rw [trimRight_eq, trimRight_eq, List.rdropWhile_concat_pos _ _ _ (by decide)]

theorem trimRight_dropCR (line : GoString) : trimRight (dropCR line) = trimRight line := by
  unfold dropCR
  split
  · rename_i h
    obtain ⟨text, rfl⟩ := List.getLast?_eq_some_iff.1 h
    rw [List.dropLast_concat, trimRight_append_return]
  · rfl

/-- `TrimRight` takes the carriage returns at the end away. -/
theorem exists_trimRight {line : GoString} (h : 10 ∉ line) :
    ∃ n, line = trimRight line ++ List.replicate n 13 := by
  induction line using List.reverseRecOn with
  | nil => exact ⟨0, rfl⟩
  | append_singleton line b ih =>
    rw [List.mem_append, List.mem_singleton, not_or] at h
    by_cases hb : b = 13
    · subst hb
      obtain ⟨n, hn⟩ := ih h.1
      refine ⟨n + 1, ?_⟩
      rw [trimRight_append_return, List.replicate_succ', ← List.append_assoc, ← hn]
    · refine ⟨0, ?_⟩
      rw [trimRight_eq, List.rdropWhile_concat_neg _ _ _ (by simp [hb, Ne.symm h.2])]
      simp

theorem stripped_append (text : GoString) (n : Nat) :
    stripped (text ++ List.replicate n 13) = stripped text := by
  simp [stripped, List.filter_append]

theorem not_mem_stripped (line : GoString) : 13 ∉ stripped line := by
  simp [stripped]

/-- `TrimRight` removes every carriage return exactly when they are at the end. -/
theorem trimRight_eq_stripped_iff {line : GoString} (h : 10 ∉ line) :
    trimRight line = stripped line ↔ EndsInReturns line := by
  constructor
  · intro heq
    obtain ⟨n, hn⟩ := exists_trimRight h
    refine ⟨trimRight line, n, hn, ?_⟩
    rw [heq]
    exact not_mem_stripped line
  · rintro ⟨text, n, rfl, htext⟩
    have htrim : trimRight (text ++ List.replicate n 13) = trimRight text := by
      induction n with
      | zero => rw [List.replicate_zero, List.append_nil]
      | succ n ih =>
        have hn : 10 ∉ text ++ List.replicate n 13 := by
          rw [List.replicate_succ', ← List.append_assoc, List.mem_append, not_or] at h
          exact h.1
        rw [List.replicate_succ', ← List.append_assoc, trimRight_append_return, ih hn]
    have hself : trimRight text = text := by
      rw [trimRight_eq, List.rdropWhile_eq_self_iff]
      intro hne
      have hlast : text.getLast hne ∈ text := List.getLast_mem hne
      have h13 : text.getLast hne ≠ 13 := fun heq => htext (heq ▸ hlast)
      have h10 : text.getLast hne ≠ 10 :=
        fun heq => h (List.mem_append_left _ (heq ▸ hlast))
      simp [h13, h10]
    rw [htrim, hself, stripped_append, stripped, List.filter_eq_self.2]
    intro b hb
    exact decide_eq_true fun heq => htext (heq ▸ hb)

theorem trimRight_eq_nil_iff {line : GoString} (h : 10 ∉ line) :
    trimRight line = [] ↔ stripped line = [] := by
  rw [trimRight_eq, List.rdropWhile_eq_nil_iff, stripped, List.filter_eq_nil_iff]
  refine forall₂_congr fun b hb => ?_
  have h10 : b ≠ 10 := fun heq => h (heq ▸ hb)
  simp [h10]

/-- Two lists that are empty at the same places agree without their empty entries exactly when
they agree. -/
theorem filter_map_eq_iff {α β : Type} {f g : α → List β} {xs : List α}
    (h : ∀ a ∈ xs, f a = [] ↔ g a = []) [DecidableEq (List β)] :
    (xs.map f).filter (fun y => decide (y ≠ [])) = (xs.map g).filter (fun y => decide (y ≠ [])) ↔
      ∀ a ∈ xs, f a = g a := by
  induction xs with
  | nil => simp
  | cons a xs ih =>
    obtain ⟨ha, hxs⟩ := List.forall_mem_cons.1 h
    rw [List.map_cons, List.map_cons, List.forall_mem_cons, ← ih hxs]
    by_cases hempty : f a = []
    · rw [hempty, ha.1 hempty]
      simp
    · rw [List.filter_cons_of_pos (by simpa using hempty),
        List.filter_cons_of_pos (by simpa using fun hg => hempty (ha.2 hg)), List.cons.injEq]

/-! ## The whole stream -/

/-- The whole of a stream is forwarded. -/
structure ForwardsWhole (chunks : List GoString) (stream : GoString) : Prop where
  /-- The scanner reads to the end. -/
  toTheEnd : (readPipe chunks).stopped = false
  lines : streamChunks chunks stream = forwarded chunks.flatten stream
  noReturns : ∀ line ∈ streamChunks chunks stream, 13 ∉ line.2

theorem not_mem_forwarded {output stream : GoString} :
    ∀ line ∈ forwarded output stream, 13 ∉ line.2 := by
  intro line hline
  obtain ⟨text, htext, rfl⟩ := List.mem_map.1 hline
  obtain ⟨whole, -, rfl⟩ := List.mem_map.1 (List.mem_filter.1 htext).1
  exact not_mem_stripped whole

/-- Where every line fits, all are forwarded exactly when their carriage returns are at their
ends. -/
theorem streamPipe_eq_forwarded_iff {output : GoString} (hfit : LinesFit output)
    (stream : GoString) : streamPipe output stream = forwarded output stream ↔
      ∀ line ∈ lines output, EndsInReturns line := by
  have htrim : (scan output).map trimRight = (lines output).map trimRight := by
    rw [scan_of_fit hfit, List.map_map]
    exact List.map_congr_left fun line _ => trimRight_dropCR line
  have hinj : Function.Injective fun line : GoString => (stream, line) :=
    fun _ _ heq => (Prod.mk.inj heq).2
  rw [streamPipe, forwarded, htrim, (List.map_injective_iff.2 hinj).eq_iff,
    filter_map_eq_iff fun line hline => trimRight_eq_nil_iff (not_mem_lines line hline)]
  exact forall₂_congr fun line hline => trimRight_eq_stripped_iff (not_mem_lines line hline)

/-- **The whole of a stream is forwarded exactly when every line fits the buffer of the scanner
and has carriage returns at its end only.** -/
theorem stream_forwarded_iff (chunks : List GoString) (stream : GoString) :
    ForwardsWhole chunks stream ↔
      ∀ line ∈ lines chunks.flatten, line.length < maxTokenSize ∧ EndsInReturns line := by
  constructor
  · rintro ⟨hend, hlines, -⟩
    have hfit : LinesFit chunks.flatten := (not_stopped_iff chunks).1 hend
    rw [streamChunks_eq, streamPipe_eq_forwarded_iff hfit] at hlines
    exact fun line hline => ⟨hfit line hline, hlines line hline⟩
  · intro h
    have hfit : LinesFit chunks.flatten := fun line hline => (h line hline).1
    have hlines : streamChunks chunks stream = forwarded chunks.flatten stream := by
      rw [streamChunks_eq, streamPipe_eq_forwarded_iff hfit]
      exact fun line hline => (h line hline).2
    refine ⟨(not_stopped_iff chunks).2 hfit, hlines, ?_⟩
    rw [hlines]
    exact not_mem_forwarded

/-- A progress bar: the carriage return inside the line is emitted. -/
theorem progress_bar_keeps_its_return : ¬ ForwardsWhole [go "50%\r100%\n"] (go "stdout") := by
  intro h
  have hline : (go "stdout", go "50%\r100%") ∈ streamChunks [go "50%\r100%\n"] (go "stdout") := by
    decide +kernel
  exact h.noReturns _ hline (by decide +kernel)

end GpuNetwork.Agent
