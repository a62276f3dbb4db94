import GpuNetwork.Commits.Alone
import GpuNetwork.Jobs.LogTail
import GpuNetwork.Store.FirstWrite

/-!
# The log as a map

`JobLogRepository.append` takes a batch of entries, and the unique constraint on the job and
the sequence keeps the first of those with the same number.  So the log of a job is a map
from sequence numbers that only grows.

* `append`, `appendAll` — calls of `append`, one after the other.
* `logMap` — the map; `appended_spec` — what a call makes of it.
* `readLog` — reading through `list_after` page by page.
* `FirstWriteWins` — what holds of the calls, as long as they can be stored.
-/

namespace GpuNetwork

open ReadCommitted ReadCommitted.Spec FirstWrite

/-! ## Calls -/

/-- A call of `append`, with what its statements find. -/
structure Append where
  jobId : Uuid
  entries : List JobLogEntryIn
  moments : Nat → Moment

/-- `append` and the commit of its caller. -/
def append (jobId : Uuid) (entries : List JobLogEntryIn) : Handler Nat := do
  let inserted ← appendLogs jobId entries
  commit
  pure inserted

/-- What the call returns, and what it leaves. -/
def appended (db : Database) (c : Append) : Except ApiError Nat × Scene :=
  (append c.jobId c.entries).alone .database { db, moments := c.moments }

/-- The store after the calls. -/
def appendAll : Database → List Append → Database
  | db, [] => db
  | db, c :: cs => appendAll (appended db c).2.db cs

/-- The identifiers the call draws. -/
def Append.ids (c : Append) : List Uuid :=
  (List.range c.entries.length).map fun i => (c.moments (i + 1)).pick

/-- The calls draw identifiers that nobody has. -/
structure Draws (db : Database) (cs : List Append) : Prop where
  nodup : (cs.flatMap Append.ids).Nodup
  unused : ∀ id ∈ cs.flatMap Append.ids, db.get (.jobLog id) = none

/-- The entry can be stored: its number fits the column, and its text has no NUL. -/
def Storable (e : JobLogEntryIn) : Prop := e.sequence ≤ 2147483647 ∧ '\x00' ∉ e.content

/-- The call can be stored: its entries can, and they go into one statement. -/
def Append.Storable (c : Append) : Prop :=
  c.entries.length ≤ 6553 ∧ ∀ e ∈ c.entries, GpuNetwork.Storable e

/-! ## The map -/

/-- What a line is found under, and what it says. -/
def JobLog.entry (l : JobLog) : (Uuid × Int) × (LogStream × Str) :=
  ((l.jobId, l.sequence), (l.stream, l.content))

/-- The entries of a batch for a job. -/
def Append.lines (c : Append) : List ((Uuid × Int) × (LogStream × Str)) :=
  c.entries.map fun e => ((c.jobId, e.sequence), (e.stream, e.content))

/-- The logs of all jobs. -/
def logMap (db : Database) : FirstWrite.Table (Uuid × Int) (LogStream × Str) :=
  first ((jobLogsOf db.rows).map JobLog.entry)

/-- The rows of a list of lines. -/
abbrev logRowsOf (ls : List JobLog) : List Row := ls.map .jobLog

theorem rows_insert {db : Database} {r : Row} (h : db.get r.key = none) :
    (db.insert r).rows = db.rows ++ [r] := by
  have hnot : r.key ∉ db.rows.map Row.key := by
    intro hm
    obtain ⟨x, hx, hk⟩ := List.mem_map.1 hm
    exact Db.get_eq_none_iff.1 h x hx hk
  have hins : db.insert r = ⟨db.rows ++ [r], _⟩ := dif_neg hnot
  rw [hins]

theorem logMap_insert {db : Database} {l : JobLog} (h : db.get (.jobLog l.id) = none) :
    logMap (db.insert (.jobLog l)) = put (logMap db) l.entry.1 l.entry.2 := by
  funext k
  have hrows : jobLogsOf (db.insert (.jobLog l)).rows = jobLogsOf db.rows ++ [l] := by
    rw [rows_insert (r := .jobLog l) h, jobLogsOf, List.filterMap_append]
    rfl
  rw [logMap, hrows, List.map_append, first_append, List.map_cons, List.map_nil, first_cons,
    first_nil]
  by_cases hk : k = l.entry.1
  · subst hk
    rw [put_self, if_pos rfl]
    rfl
  · rw [put_of_ne hk, if_neg (Ne.symm hk), Option.or_none]
    rfl

/-- A line finds its place taken exactly when its number is known. -/
theorem occupied_jobLog {db : Database} {l : JobLog} (h : db.get (.jobLog l.id) = none) :
    occupied db (.jobLog l) = (logMap db l.entry.1).isSome := by
  rw [Bool.eq_iff_iff, Option.isSome_iff_ne_none, occupied, List.any_eq_true, logMap, Ne,
    first_eq_none_iff]
  constructor
  · rintro ⟨r, hr, hocc⟩ hall
    rw [Bool.or_eq_true, decide_eq_true_eq] at hocc
    rcases hocc with hk | hclash
    · exact Db.get_eq_none_iff.1 h r hr hk
    · cases r with
      | jobLog x =>
        have hsame : (decide (x.jobId = l.jobId) && decide (x.sequence = l.sequence)) = true :=
          hclash
        simp only [Bool.and_eq_true, decide_eq_true_eq] at hsame
        refine hall x.entry (List.mem_map_of_mem (mem_jobLogsOf.2 hr)) ?_
        exact Prod.ext hsame.1 hsame.2
      | _ => cases hclash
  · intro hex
    by_contra hno
    refine hex fun e he hk => hno ?_
    obtain ⟨x, hx, rfl⟩ := List.mem_map.1 he
    refine ⟨.jobLog x, mem_jobLogsOf.1 hx, ?_⟩
    rw [Bool.or_eq_true]
    right
    obtain ⟨hj, hs⟩ := Prod.mk.inj hk
    show (decide (x.jobId = l.jobId) && decide (x.sequence = l.sequence)) = true
    simp [hj, hs]

/-! ## One statement -/

/-- **The rows of a batch that go in** are those with new numbers, the first of each. -/
theorem newRows_logRowsOf {db : Database} {ls : List JobLog} (hnd : (ls.map JobLog.id).Nodup)
    (hnew : ∀ l ∈ ls, db.get (.jobLog l.id) = none) :
    (newRows db (logRowsOf ls)).length = (entering (logMap db) (ls.map JobLog.entry)).length ∧
    logMap (applyAll ((newRows db (logRowsOf ls)).map .insert) db) =
      absorb (logMap db) (ls.map JobLog.entry) ∧
    (applyAll ((newRows db (logRowsOf ls)).map .insert) db).rows =
      db.rows ++ newRows db (logRowsOf ls) := by
  induction ls generalizing db with
  | nil => exact ⟨rfl, rfl, (List.append_nil _).symm⟩
  | cons l ls ih =>
    obtain ⟨hne, hnd⟩ := List.nodup_cons.1 hnd
    have hl := hnew l (List.mem_cons_self ..)
    rw [logRowsOf, List.map_cons, newRows, occupied_jobLog hl, List.map_cons, entering, absorb_cons]
    by_cases hk : (logMap db l.entry.1).isSome = true
    · rw [if_pos hk, if_pos hk, put_of_isSome hk]
      exact ih hnd fun x hx => hnew x (List.mem_cons_of_mem _ hx)
    · rw [if_neg hk, if_neg hk, List.map_cons, applyAll_cons, Write.apply_insert]
      have hfresh : ∀ x ∈ ls, (db.insert (.jobLog l)).get (.jobLog x.id) = none := by
        intro x hx
        rw [Db.get_insert_of_ne, hnew x (List.mem_cons_of_mem _ hx)]
        intro he
        exact hne (Key.jobLog.inj he ▸ List.mem_map_of_mem hx)
      obtain ⟨hlen, hmap, hrows⟩ := ih hnd hfresh
      rw [logMap_insert hl] at hlen hmap
      refine ⟨?_, hmap, ?_⟩
      · rw [List.length_cons, List.length_cons, hlen]
      · rw [hrows, rows_insert (r := .jobLog l) hl, List.append_assoc]
        rfl

/-! ## One call -/

theorem leads_logRows {jobId : Uuid} {t : Time} {entries : List JobLogEntryIn} {w : Scene}
    {Q : List Row → Scene → Prop} {E : Scene → Prop}
    (h : ∀ ls w', w.Same w' →
      ls.map JobLog.id = (List.range entries.length).map (fun i => (w.moments i).pick) →
      ls.map JobLog.entry = entries.map (fun e => ((jobId, e.sequence), (e.stream, e.content))) →
      Q (logRowsOf ls) w') : (logRows jobId t entries).Leads .database w Q E := by
  induction entries generalizing w Q with
  | nil => exact leads_ret (h [] w (World.Same.refl w) rfl rfl)
  | cons e es ih =>
    refine leads_bind (leads_random (leads_bind (ih fun ls w' hsame hids hentries => leads_ret ?_)))
    refine h (⟨(w.moments 0).pick, jobId, e.stream, e.content, e.sequence, t⟩ :: ls) w'
      (w.same_next.trans hsame) ?_ ?_
    · rw [List.map_cons, hids, List.length_cons, List.range_succ_eq_map, List.map_cons,
        List.map_map]
      rfl
    · rw [List.map_cons, hentries, List.map_cons]
      rfl

/-- A line can be stored exactly when its number fits and its text has no NUL. -/
theorem storable_jobLog (l : JobLog) : storable (Row.jobLog l) = true ↔
    (-2147483648 ≤ l.sequence ∧ l.sequence ≤ 2147483647) ∧ '\x00' ∉ l.content := by
  have htexts : (Schema.texts (Row.jobLog l)).all plainText = plainText l.content := Bool.and_true _
  have hfits : Schema.fits (Row.jobLog l) = fitsInteger l.sequence := rfl
  rw [storable, htexts, hfits, Bool.and_eq_true, plainText_iff, fitsInteger, Bool.and_eq_true,
    decide_eq_true_eq, decide_eq_true_eq]

/-- The lines of a batch are sent and stored exactly when the call can be. -/
theorem sendable_logRowsOf {ls : List JobLog} {c : Append} (h : ls.map JobLog.entry = c.lines) :
    sendable (logRowsOf ls) = true ↔ c.Storable := by
  have hlen : ls.length = c.entries.length := by
    have hmap := congrArg List.length h
    rwa [Append.lines, List.length_map, List.length_map] at hmap
  have hsum : parametersOf (logRowsOf ls) = 5 * c.entries.length := by
    have hfive : ∀ r ∈ logRowsOf ls, Schema.parameters r = 5 := by
      intro r hr
      obtain ⟨l, -, rfl⟩ := List.mem_map.1 hr
      rfl
    rw [parametersOf_eq hfive, List.length_map, hlen]
  have hcount : 5 * c.entries.length ≤ maxParameters ↔ c.entries.length ≤ 6553 := by
    rw [maxParameters]
    omega
  rw [sendable, Bool.and_eq_true, decide_eq_true_eq, hsum, hcount, and_comm, Append.Storable,
    List.all_eq_true]
  refine and_congr Iff.rfl ?_
  constructor
  · intro hall e he
    have hmem : ((c.jobId, e.sequence), (e.stream, e.content)) ∈ ls.map JobLog.entry := by
      rw [h]
      exact List.mem_map_of_mem he
    obtain ⟨l, hl, hentry⟩ := List.mem_map.1 hmem
    obtain ⟨⟨-, hle⟩, hnul⟩ := (storable_jobLog l).1 (hall _ (List.mem_map_of_mem hl))
    have hseq : l.sequence = e.sequence := congrArg (fun x => x.1.2) hentry
    have hcontent : l.content = e.content := congrArg (fun x => x.2.2) hentry
    exact ⟨hseq ▸ hle, hcontent ▸ hnul⟩
  · intro hall r hr
    obtain ⟨l, hl, rfl⟩ := List.mem_map.1 hr
    have hmem : l.entry ∈ c.lines := by
      rw [← h]
      exact List.mem_map_of_mem hl
    obtain ⟨e, he, hentry⟩ := List.mem_map.1 hmem
    have hseq : e.sequence = l.sequence := congrArg (fun x => x.1.2) hentry
    have hcontent : e.content = l.content := congrArg (fun x => x.2.2) hentry
    obtain ⟨hle, hnul⟩ := hall e he
    have hge := e.sequence_nonneg
    refine (storable_jobLog l).2 ⟨by omega, hcontent ▸ hnul⟩

/-- What comes of a call: its rows go in, or it is refused as one that cannot be stored. -/
theorem leads_append {db : Database} {c : Append} (hjob : (db.job c.jobId).isSome = true) :
    (append c.jobId c.entries).Leads .database { db, moments := c.moments }
      (fun n w => c.Storable ∧
        ∃ ls, ls.map JobLog.id = c.ids ∧ ls.map JobLog.entry = c.lines ∧
          n = (newRows db (logRowsOf ls)).length ∧
          w.db = applyAll ((newRows db (logRowsOf ls)).map .insert) db)
      (fun _ => ¬ c.Storable) := by
  refine leads_bind ?_
  unfold appendLogs
  by_cases hempty : c.entries = []
  · rw [if_pos (by simp [hempty])]
    refine leads_ret (leads_bind (leads_commit (leads_ret (leads_ret ⟨?_, [], ?_, ?_, rfl, rfl⟩))))
    · simp [Append.Storable, hempty]
    · simp [Append.ids, hempty]
    · simp [Append.lines, hempty]
  · rw [if_neg (by simpa using hempty)]
    refine leads_bind (leads_txTime (leads_ret (leads_bind (leads_logRows
      fun ls w hsame hids hentries => ?_))))
    have hview : w.ses.tx.view w.db = db := hsame.view
    refine leads_insertNew (fun r hr => ?_) (fun hsend hstore => ?_) fun hsend => ?_
    · obtain ⟨l, hl, rfl⟩ := List.mem_map.1 hr
      have hjobId : l.jobId = c.jobId := by
        have hmem := List.mem_map_of_mem (f := JobLog.entry) hl
        rw [hentries] at hmem
        obtain ⟨e, -, he⟩ := List.mem_map.1 hmem
        exact (congrArg (fun x => x.1.1) he).symm
      rw [hview, present]
      simp only [Schema.refs, Row.refs, List.map_cons, List.map_nil, List.all_cons, List.all_nil,
        Bool.and_true]
      rw [hjobId]
      obtain ⟨j, hj⟩ := Option.isSome_iff_exists.1 hjob
      rw [Db.get_job_iff.2 hj]
      rfl
    · rw [(sendable_logRowsOf hentries).2 hstore] at hsend
      cases hsend
    · refine leads_ret (leads_bind (leads_commit (leads_ret (leads_ret
        ⟨(sendable_logRowsOf hentries).1 hsend, ls, hids, hentries, ?_, ?_⟩))))
      · rw [hview]
      · exact (w.adds_takes _ _ _).view.trans (by rw [hview])

/-- **What a call makes of the log**, where it can be stored. -/
theorem appended_spec {db : Database} {c : Append} (hfit : c.Storable)
    (hjob : (db.job c.jobId).isSome = true) :
    ∃ ls, ls.map JobLog.id = c.ids ∧ ls.map JobLog.entry = c.lines ∧
      (appended db c).1 = .ok (newRows db (logRowsOf ls)).length ∧
      (appended db c).2.db = applyAll ((newRows db (logRowsOf ls)).map .insert) db := by
  obtain ⟨n, w, hok, ls, hids, hentries, hn, hdb⟩ := ((leads_append hjob).exists_ok_iff).2 hfit
  rw [appended, hok]
  exact ⟨ls, hids, hentries, by rw [hn], hdb⟩

/-- A call that cannot be stored is refused. -/
theorem appended_refused {db : Database} {c : Append} (hjob : (db.job c.jobId).isSome = true)
    (hfit : ¬ c.Storable) (n : Nat) : (appended db c).1 ≠ .ok n := by
  intro hok
  obtain ⟨hstore, -⟩ := (leads_append hjob).of_ok (Prod.ext hok rfl)
  exact hfit hstore

/-! ## Calls one after the other -/

/-- The store of the logs while calls come: the constraint holds, the jobs are there, and
the identifiers to come are unused. -/
structure Ready (db : Database) (cs : List Append) : Prop where
  numbered : ∀ jobId, Numbered jobId db
  jobs : ∀ c ∈ cs, (db.job c.jobId).isSome = true
  draws : Draws db cs

/-- What a call leaves. -/
structure Appended (db db' : Database) (c : Append) : Prop where
  map : logMap db' = absorb (logMap db) c.lines
  known : fresh (logMap db) c.lines = ∅ → db' = db
  others : ∀ l, l.jobId ≠ c.jobId → (.jobLog l ∈ db'.rows ↔ .jobLog l ∈ db.rows)

theorem Ready.nodup_ids {db : Database} {c : Append} {cs : List Append} (h : Ready db (c :: cs)) :
    c.ids.Nodup ∧ (∀ id ∈ c.ids, db.get (.jobLog id) = none) := by
  have hnd := h.draws.nodup
  rw [List.flatMap_cons, List.nodup_append] at hnd
  exact ⟨hnd.1, fun id hid => h.draws.unused id (by rw [List.flatMap_cons]; simp [hid])⟩

/-- The lines that the constraint lets in have numbers of their own. -/
theorem Numbered.append {db db' : Database} {rs : List Row} {jobId : Uuid} (h : Numbered jobId db)
    (hrows : db'.rows = db.rows ++ newRows db rs)
    (hnonneg : ∀ l, .jobLog l ∈ newRows db rs → 0 ≤ l.sequence) : Numbered jobId db' := by
  have hclash : ∀ x y : JobLog, Schema.clash (Row.jobLog x) (Row.jobLog y) = false →
      x.jobId = y.jobId → x.sequence = y.sequence → False := by
    intro x y hc hxy hs
    have hsame : (decide (x.jobId = y.jobId) && decide (x.sequence = y.sequence)) = false := hc
    simp [hxy, hs] at hsame
  refine ⟨fun l hl hjob => ?_, fun l l' hl hl' hjob hjob' hseq => ?_⟩
  · rw [hrows, List.mem_append] at hl
    rcases hl with hl | hl
    · exact h.nonneg l hl hjob
    · exact hnonneg l hl
  · rw [hrows, List.mem_append] at hl hl'
    rcases hl with hl | hl
    · rcases hl' with hl' | hl'
      · exact h.unique l l' hl hl' hjob hjob' hseq
      · exact (hclash l l' (clash_of_mem_newRows hl' _ hl) (hjob.trans hjob'.symm) hseq).elim
    · rcases hl' with hl' | hl'
      · exact (hclash l' l (clash_of_mem_newRows hl _ hl') (hjob'.trans hjob.symm) hseq.symm).elim
      · by_contra hne
        have hsymm : Std.Symm fun a b : Row => Schema.clash a b = false :=
          ⟨fun a b hab => (Row.clash_comm b a).trans hab⟩
        exact hclash l l' ((pairwise_newRows db rs).forall hl hl'
          fun he => hne (Row.jobLog.inj he)) (hjob.trans hjob'.symm) hseq

/-- **The step**: a call that can be stored adds what is new to the map. -/
theorem Ready.step {db : Database} {c : Append} {cs : List Append} (h : Ready db (c :: cs))
    (hfit : c.Storable) :
    (appended db c).1 = .ok (fresh (logMap db) c.lines).card ∧
      Appended db (appended db c).2.db c ∧ Ready (appended db c).2.db cs := by
  obtain ⟨hnd, hunused⟩ := h.nodup_ids
  obtain ⟨ls, hids, hentries, hret, hdb⟩ := appended_spec hfit (h.jobs c (List.mem_cons_self ..))
  have hnew : ∀ l ∈ ls, db.get (.jobLog l.id) = none := fun l hl =>
    hunused l.id (hids ▸ List.mem_map_of_mem hl)
  obtain ⟨hlen, hmap, hrows⟩ := newRows_logRowsOf (hids ▸ hnd) hnew
  rw [hentries, length_entering] at hlen
  rw [hentries] at hmap
  -- the rows that go in are lines of the job, with numbers of their own
  have hline : ∀ r ∈ newRows db (logRowsOf ls), ∃ l, r = .jobLog l ∧ l ∈ ls ∧
      l.jobId = c.jobId ∧ 0 ≤ l.sequence := by
    intro r hr
    obtain ⟨l, hl, rfl⟩ := List.mem_map.1 (mem_of_mem_newRows hr)
    have hmem := List.mem_map_of_mem (f := JobLog.entry) hl
    rw [hentries] at hmem
    obtain ⟨e, -, he⟩ := List.mem_map.1 hmem
    refine ⟨l, rfl, hl, (congrArg (fun x => x.1.1) he).symm, ?_⟩
    have hseq : e.sequence = l.sequence := congrArg (fun x => x.1.2) he
    rw [← hseq]
    exact e.sequence_nonneg
  have hget : ∀ k, (∀ id ∈ c.ids, k ≠ .jobLog id) →
      (appended db c).2.db.get k = db.get k := by
    intro k hk
    rw [hdb]
    refine get_applyAll_of_not_target (fun w hw => ?_) db
    obtain ⟨r, hr, rfl⟩ := List.mem_map.1 hw
    obtain ⟨l, rfl, hl, -, -⟩ := hline r hr
    exact fun he => hk l.id (hids ▸ List.mem_map_of_mem hl) he.symm
  refine ⟨by rw [hret, hlen], ⟨by rw [hdb, hmap], fun hempty => ?_, fun l hne => ?_⟩,
    fun jobId => ?_, fun d hd => ?_, ?_, fun id hid => ?_⟩
  · have hnil : newRows db (logRowsOf ls) = [] := by
      rw [← List.length_eq_zero_iff, hlen, hempty]
      rfl
    rw [hdb, hnil]
    rfl
  · rw [hdb, hrows, List.mem_append]
    refine ⟨fun hl => hl.resolve_right fun hl => ?_, Or.inl⟩
    obtain ⟨x, he, -, hx, -⟩ := hline _ hl
    cases he
    exact hne hx
  · have happended : (appended db c).2.db.rows = db.rows ++ newRows db (logRowsOf ls) := by
      rw [hdb, hrows]
    refine (h.numbered jobId).append happended fun l hl => ?_
    obtain ⟨x, he, -, -, hx⟩ := hline _ hl
    cases he
    exact hx
  · have hjob := h.jobs d (List.mem_cons_of_mem _ hd)
    rw [Db.job_congr (hget _ fun id _ => by simp)]
    exact hjob
  · have hall := h.draws.nodup
    rw [List.flatMap_cons, List.nodup_append] at hall
    exact hall.2.1
  · have hall := h.draws.nodup
    rw [List.flatMap_cons, List.nodup_append] at hall
    rw [hget _ fun id' hid' he => hall.2.2 id' hid' id hid (Key.jobLog.inj he).symm]
    exact h.draws.unused id (by rw [List.flatMap_cons]; exact List.mem_append_right _ hid)

/-- **The run**: calls that can be stored add all of their entries, the first for each
number. -/
theorem Ready.run {db : Database} {cs ds : List Append} (h : Ready db (cs ++ ds))
    (hfit : ∀ c ∈ cs, c.Storable) :
    logMap (appendAll db cs) = absorb (logMap db) (cs.flatMap Append.lines) ∧
      (∀ l, (∀ c ∈ cs, c.jobId ≠ l.jobId) →
        (.jobLog l ∈ (appendAll db cs).rows ↔ .jobLog l ∈ db.rows)) ∧
      Ready (appendAll db cs) ds := by
  induction cs generalizing db with
  | nil => exact ⟨rfl, fun _ _ => Iff.rfl, h⟩
  | cons c cs ih =>
    obtain ⟨hc, hcs⟩ := List.forall_mem_cons.1 hfit
    obtain ⟨-, happ, hready⟩ := Ready.step h hc
    obtain ⟨hmap, hothers, hrest⟩ := ih hready hcs
    refine ⟨?_, fun l hl => ?_, hrest⟩
    · rw [List.flatMap_cons, absorb_append, ← happ.map]
      exact hmap
    · obtain ⟨hne, hl⟩ := List.forall_mem_cons.1 hl
      exact (hothers l hl).trans (happ.others l hne.symm)

/-! ## Reading -/

/-- One page of `list_after`, and the number to go on behind when the page is full. -/
def fetchLog (db : Database) (jobId : Uuid) (limit : Nat) (_ : Nat) (cursor : Option Int) :
    Option (List JobLog × Option Int) :=
  match (listAfter jobId (cursor.getD (-1)) limit).answer ⟨[], [], 0, 0, 0⟩ db {} with
  | some (.ok page) =>
    some (page, if page.length = limit then page.getLast?.map JobLog.sequence else none)
  | _ => none

/-- The pages of at most `n` calls of `list_after`, on a log to which nobody appends. -/
def readLog (db : Database) (jobId : Uuid) (limit n : Nat) : Option (List (List JobLog)) :=
  Keyset.follow (fetchLog db jobId limit) n 0 none

/-- The lines are the whole log of the job, in order. -/
structure WholeLog (db : Database) (jobId : Uuid) (lines : List JobLog) : Prop where
  ordered : lines.Pairwise fun a b => a.sequence < b.sequence
  whole : ∀ seq v, logMap db (jobId, seq) = some v ↔
    ∃ l ∈ lines, l.entry = ((jobId, seq), v)

/-- The map has what is stored. -/
theorem logMap_eq_some_iff {db : Database} (hdb : ∀ jobId, Numbered jobId db) {jobId : Uuid}
    {seq : Int} {v : LogStream × Str} :
    logMap db (jobId, seq) = some v ↔ ∃ l, Stored jobId db l ∧ l.entry = ((jobId, seq), v) := by
  constructor
  · intro h
    obtain ⟨l, hl, he⟩ := List.mem_map.1 (mem_of_first h)
    exact ⟨l, ⟨mem_jobLogsOf.1 hl, congrArg (fun x => x.1.1) he⟩, he⟩
  · rintro ⟨l, ⟨hl, hjob⟩, he⟩
    have hsome : logMap db (jobId, seq) ≠ none := by
      intro hnone
      refine first_eq_none_iff.1 hnone l.entry (List.mem_map_of_mem (mem_jobLogsOf.2 hl)) ?_
      rw [he]
    obtain ⟨v', hv'⟩ := Option.ne_none_iff_exists'.1 hsome
    obtain ⟨l', hl', he'⟩ := List.mem_map.1 (mem_of_first hv')
    have hseq : l'.sequence = l.sequence :=
      (congrArg (fun x => x.1.2) he').trans (congrArg (fun x => x.1.2) he).symm
    have hsame : l' = l := (hdb jobId).unique l' l (mem_jobLogsOf.1 hl') hl
      (congrArg (fun x => x.1.1) he') hjob hseq
    subst hsame
    rw [hv']
    exact congrArg some ((congrArg Prod.snd he').symm.trans (congrArg Prod.snd he))

theorem serves_fetchLog {db : Database} {jobId : Uuid} (hdb : Numbered jobId db) (limit : Nat) :
    Keyset.Serves JobLog.place limit (fun _ => Stored jobId db)
      (fun cursor bound => bound = cursor.map OrderDual.toDual) (fetchLog db jobId limit) := by
  refine ⟨rfl, fun k cursor bound hmeans => ?_⟩
  subst hmeans
  have hunique : ∀ l l', Stored jobId db l → Stored jobId db l' → l.sequence = l'.sequence →
      l = l' := fun l l' hl hl' => hdb.unique l l' hl.1 hl'.1 hl.2 hl'.2
  refine ⟨_, _, rfl, Keyset.isPage_take limit (pairwise_logsAfter _ hunique) fun l => ?_,
    fun hne => if_neg hne, fun hlen l hl => ?_⟩
  · rw [mem_logsAfter]
    cases cursor with
    | some mark => exact Iff.rfl
    | none =>
      -- every number lies behind -1
      refine and_congr_right fun hl => ⟨fun _ b hb => absurd hb (by simp), fun _ b hb => ?_⟩
      cases hb
      have hpos := hdb.nonneg l hl.1 hl.2
      show (-1 : Int) < l.sequence
      omega
  · rw [if_pos hlen, hl]
    exact ⟨l.sequence, rfl, rfl⟩

/-- **Reading page by page gives the whole log**, whatever the size of the pages. -/
theorem exists_readLog {db : Database} (hdb : ∀ jobId, Numbered jobId db) (jobId : Uuid)
    {limit : Nat} (hlimit : 1 ≤ limit) :
    ∃ n pages, readLog db jobId limit n = some pages ∧ WholeLog db jobId pages.flatten := by
  have hkeys : ∀ (k : Nat) (l : JobLog), Stored jobId db l →
      l.place ∈ ((jobLogsOf db.rows).map JobLog.place).toFinset := fun k l hl =>
    List.mem_toFinset.2 (List.mem_map_of_mem (mem_jobLogsOf.2 hl.1))
  obtain ⟨n, pages, hpages, hcovers⟩ :=
    (serves_fetchLog (hdb jobId) limit).exists_follow hlimit hkeys
  refine ⟨n, pages, hpages, hcovers.sorted, fun seq v => ?_⟩
  rw [logMap_eq_some_iff hdb]
  constructor
  · rintro ⟨l, hl, he⟩
    obtain ⟨l', hl', hplace⟩ := hcovers.complete l.place (fun b hb => absurd hb (by simp))
      fun _ => ⟨l, hl, rfl⟩
    obtain ⟨-, hstored⟩ := hcovers.listed l' hl'
    have hsame : l' = l := (hdb jobId).unique l' l hstored.1 hl.1 hstored.2 hl.2
      (OrderDual.toDual_inj.1 hplace)
    exact ⟨l, hsame ▸ hl', he⟩
  · rintro ⟨l, hl, he⟩
    obtain ⟨-, hstored⟩ := hcovers.listed l hl
    exact ⟨l, hstored, he⟩

/-! ## First write wins -/

/-- What holds of calls of `append`, one after the other, and of the logs they leave. -/
structure FirstWriteWins (db : Database) (cs : List Append) : Prop where
  /-- A number keeps the first entry that was submitted with it. -/
  stored : ∀ jobId seq, logMap (appendAll db cs) (jobId, seq) =
    (logMap db (jobId, seq)).or (first (cs.flatMap Append.lines) (jobId, seq))
  /-- A call returns how many numbers it adds. -/
  counts : ∀ pre c post, cs = pre ++ c :: post →
    (appended (appendAll db pre) c).1 = .ok (fresh (logMap (appendAll db pre)) c.lines).card
  /-- A batch that is sent again changes nothing. -/
  again : ∀ c ∈ cs, ∀ c', c'.jobId = c.jobId → c'.entries = c.entries → Draws db (cs ++ [c']) →
    (appended (appendAll db cs) c').1 = .ok 0 ∧
      (appended (appendAll db cs) c').2.db = appendAll db cs
  /-- Batches without a number in common may come in either order. -/
  commute : ∀ pre c d post, cs = pre ++ c :: d :: post →
    (∀ e ∈ c.lines, ∀ e' ∈ d.lines, e.1 ≠ e'.1) →
    logMap (appendAll db (pre ++ d :: c :: post)) = logMap (appendAll db cs)
  /-- The logs of other jobs stay as they are. -/
  untouched : ∀ l : JobLog, (∀ c ∈ cs, c.jobId ≠ l.jobId) →
    (.jobLog l ∈ (appendAll db cs).rows ↔ .jobLog l ∈ db.rows)
  /-- Reading page by page gives the whole log. -/
  pages : ∀ jobId limit, 1 ≤ limit → ∃ n pages,
    readLog (appendAll db cs) jobId limit n = some pages ∧
      WholeLog (appendAll db cs) jobId pages.flatten

theorem Ready.swap {db : Database} {pre post : List Append} {c d : Append}
    (h : Ready db (pre ++ c :: d :: post)) : Ready db (pre ++ d :: c :: post) := by
  have hperm : (pre ++ d :: c :: post).Perm (pre ++ c :: d :: post) :=
    (List.Perm.swap c d post).append_left pre
  have hids : ((pre ++ d :: c :: post).flatMap Append.ids).Perm
      ((pre ++ c :: d :: post).flatMap Append.ids) := hperm.flatMap_right Append.ids
  refine ⟨h.numbered, fun x hx => h.jobs x (hperm.mem_iff.1 hx), ?_, fun id hid => ?_⟩
  · exact hids.nodup_iff.2 h.draws.nodup
  · exact h.draws.unused id (hids.mem_iff.1 hid)

theorem firstWriteWins_of_storable {db : Database} {cs : List Append} (h : Ready db cs)
    (hfit : ∀ c ∈ cs, c.Storable) : FirstWriteWins db cs := by
  have hall : Ready db (cs ++ []) := by rwa [List.append_nil]
  obtain ⟨hmap, hothers, hready⟩ := hall.run hfit
  refine ⟨fun jobId seq => ?_, fun pre c post he => ?_, fun c hc c' hjob hentries hdraws => ?_,
    fun pre c d post he hdisj => ?_, hothers, fun jobId limit hlimit => ?_⟩
  · rw [hmap, absorb_apply]
  · subst he
    have hpre := (h.run fun x hx => hfit x (List.mem_append_left _ hx)).2.2
    exact (hpre.step (hfit c (by simp))).1
  · -- the call that sends the batch again is one more call
    have hmore : Ready db (cs ++ [c']) := by
      refine ⟨h.numbered, fun x hx => ?_, hdraws⟩
      rcases List.mem_append.1 hx with hx | hx
      · exact h.jobs x hx
      · rw [List.mem_singleton.1 hx, hjob]
        exact h.jobs c hc
    have hlast := (hmore.run hfit).2.2
    have hstore : c'.Storable := by
      rw [Append.Storable, hentries]
      exact hfit c hc
    obtain ⟨hret, happ, -⟩ := hlast.step hstore
    have hlines : c'.lines = c.lines := by rw [Append.lines, Append.lines, hjob, hentries]
    have hknown : fresh (logMap (appendAll db cs)) c'.lines = ∅ := by
      rw [hlines]
      refine (absorb_of_known fun e he => ?_).2
      rw [hmap]
      exact isSome_absorb_of_mem (List.mem_flatMap.2 ⟨c, hc, he⟩)
    refine ⟨?_, happ.known hknown⟩
    rw [hret, hknown]
    rfl
  · subst he
    have hswap : Ready db ((pre ++ d :: c :: post) ++ []) := by
      rw [List.append_nil]
      exact h.swap
    have hfit' : ∀ x ∈ pre ++ d :: c :: post, x.Storable := by
      intro x hx
      refine hfit x ?_
      simp only [List.mem_append, List.mem_cons] at hx ⊢
      rcases hx with hx | hx | hx | hx
      · exact Or.inl hx
      · exact Or.inr (Or.inr (Or.inl hx))
      · exact Or.inr (Or.inl hx)
      · exact Or.inr (Or.inr (Or.inr hx))
    rw [(hswap.run hfit').1, hmap]
    simp only [List.flatMap_append, List.flatMap_cons, absorb_append]
    rw [absorb_comm hdisj]
  · exact exists_readLog hready.numbered jobId hlimit

/-- The first of the calls that cannot be stored. -/
theorem exists_first_unstorable {cs : List Append} (h : ¬ ∀ c ∈ cs, c.Storable) :
    ∃ pre c post, cs = pre ++ c :: post ∧ (∀ x ∈ pre, x.Storable) ∧ ¬ c.Storable := by
  induction cs with
  | nil => exact absurd (by simp) h
  | cons c cs ih =>
    by_cases hc : c.Storable
    · obtain ⟨pre, d, post, rfl, hpre, hd⟩ := ih fun hcs => h (List.forall_mem_cons.2 ⟨hc, hcs⟩)
      exact ⟨c :: pre, d, post, rfl, List.forall_mem_cons.2 ⟨hc, hpre⟩, hd⟩
    · exact ⟨[], c, cs, rfl, by simp, hc⟩

/-- **The log keeps the first entry of each number**, exactly when no call has more than 6553
entries and every entry of the calls can be stored. -/
theorem first_write_wins_iff {db : Database} {cs : List Append} (h : Ready db cs) :
    FirstWriteWins db cs ↔
      ∀ c ∈ cs, c.entries.length ≤ 6553 ∧ ∀ e ∈ c.entries, Storable e := by
  refine ⟨fun hwins => ?_, firstWriteWins_of_storable h⟩
  by_contra hfit
  obtain ⟨pre, c, post, rfl, hpre, hunfit⟩ := exists_first_unstorable hfit
  have hready := (h.run hpre).2.2
  exact appended_refused (hready.jobs c (List.mem_cons_self ..)) hunfit _
    (hwins.counts pre c post rfl)

/-- A line of one character. -/
def lineOf (content : Char) (sequence : Nat) : JobLogEntryIn where
  stream := .stdout
  content := [content]
  sequence := sequence
  content_length := by simp
  sequence_nonneg := Int.natCast_nonneg _

/-- The `n`-th call for the job of `queuedDb`. -/
def sampleAppend (n : Nat) (entries : List JobLogEntryIn) : Append where
  jobId := 3
  entries := entries
  moments := fun i => ⟨0, 0, 100 * n + i⟩

/-- A number that comes twice in a batch, and one that comes again in the next. -/
def repeatedAppends : List Append :=
  [sampleAppend 0 [lineOf 'a' 0, lineOf 'b' 0, lineOf 'c' 1],
    sampleAppend 1 [lineOf 'd' 1, lineOf 'e' 2]]

/-- A number that does not fit the column. -/
def oversizedAppends : List Append := [sampleAppend 0 [lineOf 'a' 2147483648]]

theorem ready_queuedDb {cs : List Append} (hjobs : ∀ c ∈ cs, c.jobId = 3)
    (hids : (cs.flatMap Append.ids).Nodup) : Ready queuedDb cs := by
  have hrows : queuedDb.rows = [.user sampleUser, .node sampleNode, .job sampleJob] := by
    decide +kernel
  have hnone : ∀ id, queuedDb.get (.jobLog id) = none := by
    intro id
    refine Db.get_eq_none_iff.2 fun r hr he => ?_
    rw [hrows] at hr
    simp only [List.mem_cons, List.not_mem_nil, or_false] at hr
    rcases hr with rfl | rfl | rfl <;> cases he
  have hlog : ∀ l, .jobLog l ∉ queuedDb.rows := by
    intro l hl
    exact Db.get_eq_none_iff.1 (hnone l.id) _ hl rfl
  refine ⟨fun jobId => ⟨fun l hl => absurd hl (hlog l), fun l _ hl => absurd hl (hlog l)⟩,
    fun c hc => ?_, hids, fun id _ => hnone id⟩
  rw [hjobs c hc]
  decide +kernel

theorem first_write_wins_at_repeatedAppends : FirstWriteWins queuedDb repeatedAppends ∧
    logMap (appendAll queuedDb repeatedAppends) (3, 0) = some (.stdout, ['a']) := by
  have hready : Ready queuedDb repeatedAppends :=
    ready_queuedDb (by decide) (by decide)
  refine ⟨(first_write_wins_iff hready).2 fun c hc => ?_, by decide +kernel⟩
  simp only [repeatedAppends, List.mem_cons, List.not_mem_nil, or_false] at hc
  rcases hc with rfl | rfl
  · refine ⟨by decide, fun e he => ?_⟩
    simp only [sampleAppend, List.mem_cons, List.not_mem_nil, or_false] at he
    rcases he with rfl | rfl | rfl <;> exact ⟨by decide, by decide⟩
  · refine ⟨by decide, fun e he => ?_⟩
    simp only [sampleAppend, List.mem_cons, List.not_mem_nil, or_false] at he
    rcases he with rfl | rfl <;> exact ⟨by decide, by decide⟩

/-- **A number that is too large is refused**, and the call with it. -/
theorem oversized_number_is_refused : ¬ FirstWriteWins queuedDb oversizedAppends := by
  intro h
  have hready : Ready queuedDb oversizedAppends := ready_queuedDb (by decide) (by decide)
  have hunfit : ¬ (sampleAppend 0 [lineOf 'a' 2147483648]).Storable := fun hfit =>
    absurd (hfit.2 _ (List.mem_singleton_self _)).1 (by decide)
  exact appended_refused (hready.jobs _ (List.mem_singleton_self _)) hunfit _
    (h.counts [] _ [] rfl)

end GpuNetwork
