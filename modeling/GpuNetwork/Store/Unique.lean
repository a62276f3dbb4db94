import GpuNetwork.Store.Versions

/-!
# Unique constraints

A session that inserts a row has checked it against the rows it sees, and has waited for the
sessions that have one pending against it.  For rows that no other statement puts in the
store, and whose unique columns no `UPDATE` writes, this makes a constraint of the check: in
no state do two of them clash, whatever the order of the commits.

* `Alike`, `checked_exec` — what a session that deletes nothing has checked.
* `Enters` — the rows of a table that one kind of request inserts; `enters_of_keepsRows`.
* `Apart`, `apart_step` — no two of them clash, in the store or on their way to it.
* `Inserts`, `Distinct`, `distinct_step` — the same of rows that are never written again.
-/

namespace ReadCommitted

open Schema Spec

variable {R K W Req ε α : Type} [Schema R K W] [DecidableEq K]

/-- The statement writes no rows but those it inserts under a check. -/
def Stmt.insertsOnly : Stmt R K W → Bool
  | .upsert _ => false
  | .update _ _ => false
  | .delete _ => false
  | _ => true

/-! ## What a session has checked -/

omit [Schema R K W] [DecidableEq K] in
theorem Stmt.insertsOnly_of_reads {q : Stmt R K W} (h : q.reads = true) :
    q.insertsOnly = true := by
  cases q <;> first | rfl | cases h

theorem clash_of_pends {env : Env R K} {r : R} (h : env.pends r = false) :
    ∀ x ∈ env.inflight, clash x r = false := by
  intro x hx
  have hfree := List.any_eq_false.1 h x hx
  simp only [Bool.or_eq_true, not_or, Bool.not_eq_true] at hfree
  exact hfree.2

theorem clash_of_occupied {db : Db R} {r : R} (h : occupied db r = false) :
    ∀ x ∈ db.rows, clash x r = false := by
  intro x hx
  have hfree := List.any_eq_false.1 h x hx
  simp only [Bool.or_eq_true, not_or, Bool.not_eq_true] at hfree
  exact hfree.2

/-- A row can be inserted whose key is free and that clashes with none. -/
theorem occupied_eq_false_iff {db : Db R} {r : R} :
    occupied db r = false ↔ db.get (key r) = none ∧ ∀ x ∈ db.rows, clash x r = false := by
  unfold occupied
  simp [List.any_eq_false, Db.get_eq_none_iff, forall_and]

/-- Inserting rows takes none away. -/
theorem mem_applyAll_of_inserts {ws : List (Write R K)} (hw : ∀ w ∈ ws, ∃ r, w = .insert r)
    {db : Db R} {x : R} (hx : x ∈ db.rows) : x ∈ (applyAll ws db).rows := by
  induction ws generalizing db with
  | nil => exact hx
  | cons w ws ih =>
    obtain ⟨r, rfl⟩ := hw w (List.mem_cons_self ..)
    refine ih (fun v hv => hw v (List.mem_cons_of_mem _ hv)) ?_
    exact Db.mem_of_get (Db.get_insert_of_get (Db.get_of_mem hx))

/-- The rows a session sees, of which it has inserted some, are those of the store and
more. -/
theorem mem_view_of_inserts {tx : Tx R K W} (hw : ∀ w ∈ tx.writes, ∃ r, w = .insert r)
    {db : Db R} {x : R} (hx : x ∈ db.rows) : x ∈ (tx.view db).rows :=
  mem_applyAll_of_inserts hw hx

omit [DecidableEq K] in
theorem mem_inserted {tx : Tx R K W} {r : R} : r ∈ Sys.inserted tx ↔ .insert r ∈ tx.writes := by
  unfold Sys.inserted
  rw [List.mem_filterMap]
  constructor
  · rintro ⟨w, hw, hr⟩
    cases w with
    | insert x => cases hr; exact hw
    | update old new => cases hr
    | delete k => cases hr
  · intro h
    exact ⟨_, h, rfl⟩

/-! ## Rows that are written again -/

omit [DecidableEq K] in
/-- Two versions of a row that clash with the same rows. -/
structure Alike (a b : R) : Prop where
  key : Schema.key a = Schema.key b
  clash : ∀ z, Schema.clash a z = Schema.clash b z

omit [DecidableEq K] in
/-- No `UPDATE` writes a column of a unique constraint. -/
theorem versions_alike (h : ∀ old new cur : R, Alike cur (merge old new cur)) :
    Versions (Alike (R := R)) :=
  ⟨fun _ => ⟨rfl, fun _ => rfl⟩, fun hab hbc =>
    ⟨hab.key.trans hbc.key, fun z => (hab.clash z).trans (hbc.clash z)⟩, h⟩

/-- The statement neither deletes nor overwrites rows. -/
def Stmt.keepsRows : Stmt R K W → Bool
  | .upsert _ => false
  | .delete _ => false
  | _ => true

omit [Schema R K W] [DecidableEq K] in
theorem Stmt.keepsRows_of_insertsOnly {q : Stmt R K W} (h : q.insertsOnly = true) :
    q.keepsRows = true := by
  cases q <;> first | rfl | cases h

omit [Schema R K W] [DecidableEq K] in
theorem Stmt.keepsRows_of_reads {q : Stmt R K W} (h : q.reads = true) : q.keepsRows = true := by
  cases q <;> first | rfl | cases h

/-! ## What a statement checks -/

/-- **What a session that deletes nothing has checked**: a row it adds clashes with none of
the store, and with none that another session has pending. -/
theorem checked_exec {env : Env R K} {db db' : Db R} {ses ses' : Session R K W}
    {q : Stmt R K W} {r : q.Res} (h : exec env db ses q = .ok r ses' db')
    (hq : q.keepsRows = true)
    (hview : ∀ y ∈ db.rows, ∃ x ∈ (ses.tx.view db).rows, Alike y x) :
    ∀ x ∈ Sys.inserted ses'.tx, x ∈ Sys.inserted ses.tx ∨
      ((∀ y ∈ db.rows, clash y x = false) ∧ ∀ y ∈ env.inflight, clash y x = false) := by
  -- what is checked against the rows the session sees is checked against those of the store
  have hstore : ∀ {x : R}, (∀ y ∈ (ses.tx.view db).rows, clash y x = false) →
      ∀ y ∈ db.rows, clash y x = false := by
    intro x hx y hy
    obtain ⟨z, hz, halike⟩ := hview y hy
    rw [halike.clash]
    exact hx z hz
  -- a statement adds the rows `new` to those that have been inserted
  have hadds : ∀ (new : List R) {ws : List (Write R K)} {p : Stmt R K W} {ls : List (Lock K)},
      (∀ x, .insert x ∈ ws → x ∈ new) →
      (∀ x ∈ new, (∀ y ∈ db.rows, clash y x = false) ∧ ∀ y ∈ env.inflight, clash y x = false) →
      ∀ x ∈ Sys.inserted (ses.takes p db ws ls).tx, x ∈ Sys.inserted ses.tx ∨
        ((∀ y ∈ db.rows, clash y x = false) ∧ ∀ y ∈ env.inflight, clash y x = false) := by
    intro new ws p ls hws hnew x hx
    rw [mem_inserted, Session.takes, Tx.takes_writes, List.mem_append] at hx
    rcases hx with hx | hx
    · exact Or.inl (mem_inserted.2 hx)
    · exact Or.inr (hnew x (hws x hx))
  have hnone : ∀ {p : Stmt R K W} {ls : List (Lock K)},
      ∀ x ∈ Sys.inserted (ses.takes p db [] ls).tx, x ∈ Sys.inserted ses.tx ∨
        ((∀ y ∈ db.rows, clash y x = false) ∧ ∀ y ∈ env.inflight, clash y x = false) :=
    hadds [] (by simp) (by simp)
  cases q with
  | now => cases h; exact fun x hx => Or.inl hx
  | random => cases h; exact fun x hx => Or.inl hx
  | txTime => cases h; exact fun x hx => Or.inl hx
  | select w => cases h; exact hnone
  | selectAll w => cases h; exact hnone
  | tryLock w k =>
    simp only [exec] at h
    split at h
    · cases h; exact hnone
    · split at h
      · cases h; exact hnone
      · split at h <;> cases h
        · exact hnone
        · exact hnone
  | insert x =>
    simp only [exec] at h
    split at h <;> try cases h
    split at h <;> try cases h
    split at h <;> try cases h
    split at h <;> cases h
    rename_i hocc hb _
    simp only [Bool.or_eq_true, not_or, Bool.not_eq_true] at hb hocc
    refine hadds [x] (by simp) fun y hy => ?_
    rw [List.mem_singleton.1 hy]
    exact ⟨hstore (clash_of_occupied hocc), clash_of_pends hb.1⟩
  | insertNew rs =>
    simp only [exec] at h
    split at h <;> try cases h
    split at h <;> try cases h
    split at h <;> cases h
    rename_i hb _
    simp only [Bool.or_eq_true, not_or, Bool.not_eq_true] at hb
    refine hadds (newRows (ses.tx.view db) rs) (by simp) fun y hy => ?_
    exact ⟨hstore (clash_of_mem_newRows hy),
      clash_of_pends (by simpa using List.any_eq_false.1 hb.1 y hy)⟩
  | upsert rs => cases hq
  | update old new =>
    simp only [exec] at h
    split at h
    · cases h; exact hnone
    · split at h <;> try cases h
      split at h <;> try cases h
      split at h <;> cases h
      exact hadds [] (by simp) (by simp)
  | delete k => cases hq
  | commit => cases h; exact fun x hx => by simp [Sys.inserted] at hx
  | rollback => cases h; exact fun x hx => by simp [Sys.inserted] at hx

/-- A write the statement may add. -/
def Stmt.adds (q : Stmt R K W) (w : Write R K) : Prop :=
  match q with
  | .insert _ => ∃ r, w = .insert r
  | .insertNew _ => ∃ r, w = .insert r
  | .update old new => w = .update old new
  | .upsert _ => True
  | .delete _ => True
  | _ => False

omit [Schema R K W] [DecidableEq K] in
theorem Stmt.insert_of_adds {q : Stmt R K W} (hq : q.insertsOnly = true) {w : Write R K}
    (h : q.adds w) : ∃ r, w = .insert r := by
  cases q with
  | insert r => exact h
  | insertNew rs => exact h
  | upsert rs => cases hq
  | update old new => cases hq
  | delete k => cases hq
  | _ => cases h

/-- The writes of a session are those it had and those of the statement. -/
theorem writes_exec {env : Env R K} {db db' : Db R} {ses ses' : Session R K W}
    {q : Stmt R K W} {r : q.Res} (h : exec env db ses q = .ok r ses' db') :
    ∀ w ∈ ses'.tx.writes, w ∈ ses.tx.writes ∨ q.adds w := by
  have hadds : ∀ {ws : List (Write R K)} {p : Stmt R K W} {ls : List (Lock K)},
      (∀ w ∈ ws, q.adds w) → ∀ w ∈ (ses.takes p db ws ls).tx.writes,
      w ∈ ses.tx.writes ∨ q.adds w := by
    intro ws p ls hws w hw
    rw [Session.takes, Tx.takes_writes, List.mem_append] at hw
    exact hw.imp id (hws w)
  have hnone : ∀ {p : Stmt R K W} {ls : List (Lock K)},
      ∀ w ∈ (ses.takes p db [] ls).tx.writes, w ∈ ses.tx.writes ∨ q.adds w := hadds (by simp)
  cases q with
  | now => cases h; exact fun w hw => Or.inl hw
  | random => cases h; exact fun w hw => Or.inl hw
  | txTime => cases h; exact fun w hw => Or.inl hw
  | select wh => cases h; exact hnone
  | selectAll wh => cases h; exact hnone
  | tryLock wh k =>
    simp only [exec] at h
    split at h
    · cases h; exact hnone
    · split at h
      · cases h; exact hnone
      · split at h <;> cases h
        · exact hnone
        · exact hnone
  | insert x =>
    simp only [exec] at h
    split at h <;> try cases h
    split at h <;> try cases h
    split at h <;> try cases h
    split at h <;> cases h
    exact hadds fun w hw => ⟨x, List.mem_singleton.1 hw⟩
  | insertNew rs =>
    simp only [exec] at h
    split at h <;> try cases h
    split at h <;> try cases h
    split at h <;> cases h
    refine hadds fun w hw => ?_
    obtain ⟨x, -, rfl⟩ := List.mem_map.1 hw
    exact ⟨x, rfl⟩
  | update old new =>
    simp only [exec] at h
    split at h
    · cases h; exact hnone
    · split at h <;> try cases h
      split at h <;> try cases h
      split at h <;> cases h
      exact hadds fun w hw => List.mem_singleton.1 hw
  | upsert rs => exact fun w _ => Or.inr trivial
  | delete k => exact fun w _ => Or.inr trivial
  | commit => cases h; exact fun w hw => by simp at hw
  | rollback => cases h; exact fun w hw => by simp at hw

/-! ## The rows of one table -/

/-- The rows `U` are inserted by the requests `A` under the check, and never written
otherwise. -/
structure Inserts (P : Spec R K W Req ε α) (S : Server R K W Req ε α) (U : R → Prop)
    (A : Req → Prop) : Prop where
  emits : ∀ req, A req → (S.handle req).Emits fun q => q.insertsOnly = true
  commits : ∀ db req tx, P.Committing db req tx → ∀ x ∈ (tx.view db).rows, U x →
    x ∈ db.rows ∨ (A req ∧ x ∈ Sys.inserted tx)
  within : ∀ req tx, P.shape req tx → A req →
    ∀ a ∈ Sys.inserted tx, ∀ b ∈ Sys.inserted tx, a ≠ b → clash a b = false

/-- No two of the rows `U` clash, whether they are in the store or on their way to it. -/
structure Distinct (U : R → Prop) (A : Req → Prop) (s : Sys R Req ε α) : Prop where
  stored : ∀ a ∈ s.db.rows, ∀ b ∈ s.db.rows, U a → U b → a ≠ b → clash a b = false
  emits : ∀ (i : Nat) (th : Thread R K W Req ε α), s.threads[i]? = some th → A th.req →
    th.prog.Emits fun q => q.insertsOnly = true
  writes : ∀ (i : Nat) (th : Thread R K W Req ε α), s.threads[i]? = some th → A th.req →
    ∀ w ∈ th.ses.tx.writes, ∃ x, w = .insert x
  pending : ∀ (i : Nat) (th : Thread R K W Req ε α), s.threads[i]? = some th → A th.req →
    ∀ x ∈ Sys.inserted th.ses.tx, ∀ y ∈ s.db.rows, U y → clash y x = false
  apart : ∀ (i j : Nat) (ti tj : Thread R K W Req ε α), i ≠ j → s.threads[i]? = some ti →
    s.threads[j]? = some tj → A ti.req → A tj.req →
    ∀ x ∈ Sys.inserted ti.ses.tx, ∀ y ∈ Sys.inserted tj.ses.tx, clash y x = false

variable {P : Spec R K W Req ε α} {S : Server R K W Req ε α} {U : R → Prop} {A : Req → Prop}

omit [DecidableEq K] in
theorem mem_inflight {s : Sys R Req ε α} {i j : Nat} {ti tj : Thread R K W Req ε α} {pick : Nat}
    (hij : j ≠ i) (hj : s.threads[j]? = some tj) {x : R} (hx : x ∈ Sys.inserted tj.ses.tx) :
    x ∈ (s.env i ti pick).inflight := by
  refine List.mem_flatMap.2 ⟨tj, ?_, hx⟩
  exact List.mem_eraseIdx_iff_getElem?.2 ⟨j, hij, hj⟩

/-- A thread that emits such statements as `ok`, whose writes are `good`: all that it has
pending clashes with nothing in the store, nor with what another thread has pending. -/
theorem Moves.checked {ok : Stmt R K W → Prop} {good : Write R K → Prop}
    (hgood : ∀ q, ok q → q.keepsRows = true ∧ ∀ w, q.adds w → good w)
    (hkeeps : ∀ tx : Tx R K W, (∀ w ∈ tx.writes, good w) → ∀ (db : Db R) y, y ∈ db.rows →
      ∃ x ∈ (tx.view db).rows, Alike y x)
    {s : Sys R Req ε α} {i : Nat} {l : Label Req} {db : Db R}
    {th th' : Thread R K W Req ε α} (hm : Moves S s i th l db th') (hemits : th.prog.Emits ok)
    (hw : ∀ w ∈ th.ses.tx.writes, good w) :
    th'.prog.Emits ok ∧ (∀ w ∈ th'.ses.tx.writes, good w) ∧
    ∀ x ∈ Sys.inserted th'.ses.tx, db = s.db ∧ (x ∈ Sys.inserted th.ses.tx ∨
      ((∀ y ∈ s.db.rows, clash y x = false) ∧ ∀ (j : Nat) (tj : Thread R K W Req ε α), j ≠ i →
        s.threads[j]? = some tj → ∀ y ∈ Sys.inserted tj.ses.tx, clash y x = false)) := by
  cases hm with
  | runs hp he =>
    rw [hp] at hemits
    obtain ⟨hq, hk⟩ := hemits
    obtain ⟨hrows, hadds⟩ := hgood _ hq
    refine ⟨hk _, fun w hw' => (writes_exec he w hw').elim (hw w) (hadds w), fun x hx => ⟨?_, ?_⟩⟩
    · rcases exec_cases he with ⟨-, hdb, -⟩ | ⟨-, hdb, -⟩ | ⟨-, -, rfl⟩
      · exact hdb
      · exact hdb
      · simp [Sys.inserted] at hx
    · rcases checked_exec he hrows (hkeeps _ hw _) x hx with hold | ⟨hstore, hpend⟩
      · exact Or.inl hold
      · exact Or.inr ⟨hstore, fun j tj hj htj y hy => hpend y (mem_inflight hj htj hy)⟩
  | refused _ _ =>
    exact ⟨trivial, fun w hw => by simp at hw, fun x hx => by simp [Sys.inserted] at hx⟩
  | closes _ =>
    exact ⟨hemits, fun w hw => by simp at hw, fun x hx => by simp [Sys.inserted] at hx⟩

/-- The rows `U` enter the store by the requests `A` alone, whose statements are `ok` and
whose writes are `good`. -/
structure Enters (P : Spec R K W Req ε α) (S : Server R K W Req ε α) (ok : Stmt R K W → Prop)
    (good : Write R K → Prop) (U : R → Prop) (A : Req → Prop) : Prop where
  checks : ∀ q, ok q → q.keepsRows = true ∧ ∀ w, q.adds w → good w
  keeps : ∀ tx : Tx R K W, (∀ w ∈ tx.writes, good w) → ∀ (db : Db R) y, y ∈ db.rows →
    ∃ x ∈ (tx.view db).rows, Alike y x
  emits : ∀ req, A req → (S.handle req).Emits ok
  commits : ∀ db req tx, P.Committing db req tx → ∀ x ∈ (tx.view db).rows, U x →
    ∃ y, Alike y x ∧ U y ∧ (y ∈ db.rows ∨ (A req ∧ y ∈ Sys.inserted tx))
  within : ∀ req tx, P.shape req tx → A req →
    ∀ a ∈ Sys.inserted tx, ∀ b ∈ Sys.inserted tx, a ≠ b → clash a b = false

/-- No two of the rows `U` clash, whether they are in the store or on their way to it. -/
structure Apart (ok : Stmt R K W → Prop) (good : Write R K → Prop) (U : R → Prop) (A : Req → Prop)
    (s : Sys R Req ε α) : Prop where
  stored : ∀ a ∈ s.db.rows, ∀ b ∈ s.db.rows, U a → U b → a ≠ b → clash a b = false
  emits : ∀ (i : Nat) (th : Thread R K W Req ε α), s.threads[i]? = some th → A th.req →
    th.prog.Emits ok
  writes : ∀ (i : Nat) (th : Thread R K W Req ε α), s.threads[i]? = some th → A th.req →
    ∀ w ∈ th.ses.tx.writes, good w
  pending : ∀ (i : Nat) (th : Thread R K W Req ε α), s.threads[i]? = some th → A th.req →
    ∀ x ∈ Sys.inserted th.ses.tx, ∀ y ∈ s.db.rows, U y → clash y x = false
  apart : ∀ (i j : Nat) (ti tj : Thread R K W Req ε α), i ≠ j → s.threads[i]? = some ti →
    s.threads[j]? = some tj → A ti.req → A tj.req →
    ∀ x ∈ Sys.inserted ti.ses.tx, ∀ y ∈ Sys.inserted tj.ses.tx, clash y x = false

/-- **No step lets two rows clash.** -/
theorem apart_step {ok : Stmt R K W → Prop} {good : Write R K → Prop}
    (hE : Enters P S ok good U A) (hcomm : ∀ a b : R, clash a b = clash b a)
    {s s' : Sys R Req ε α} {l : Label Req} (hok : P.Ok s) (hd : Apart ok good U A s)
    (hs : step S s l = some s') : Apart ok good U A s' := by
  rcases step_cases hs with ⟨req, -, rfl⟩ | ⟨d, -, rfl⟩ | ⟨i, th, th', db, hi, -, hm, rfl⟩
  · -- the new thread has nothing pending
    refine ⟨hd.stored, fun j t hj ha => ?_, fun j t hj ha => ?_, fun j t hj ha => ?_,
      fun j j' t t' hjj hj hj' ha ha' x hx y hy => ?_⟩
    · rcases getElem?_concat_cases hj with hj | ⟨-, rfl⟩
      · exact hd.emits j t hj ha
      · exact hE.emits req ha
    · rcases getElem?_concat_cases hj with hj | ⟨-, rfl⟩
      · exact hd.writes j t hj ha
      · intro w hw; simp at hw
    · rcases getElem?_concat_cases hj with hj | ⟨-, rfl⟩
      · exact hd.pending j t hj ha
      · intro x hx; simp [Sys.inserted] at hx
    · rcases getElem?_concat_cases hj with hj | ⟨-, rfl⟩
      · rcases getElem?_concat_cases hj' with hj' | ⟨-, rfl⟩
        · exact hd.apart j j' t t' hjj hj hj' ha ha' x hx y hy
        · simp [Sys.inserted] at hy
      · simp [Sys.inserted] at hx
  · exact ⟨hd.stored, hd.emits, hd.writes, hd.pending, hd.apart⟩
  · have hins : A th.req → _ := fun ha =>
      hm.checked hE.checks hE.keeps (hd.emits i th hi ha) (hd.writes i th hi ha)
    -- what the store has after the step
    have hdb : ∀ x ∈ db.rows, U x → ∃ y, Alike y x ∧ U y ∧ (y ∈ s.db.rows ∨
        (P.shape th.req th.ses.tx ∧ A th.req ∧ y ∈ Sys.inserted th.ses.tx)) := by
      intro x hx hux
      rcases Ok.moves_cases hi hm with rfl | hc
      · exact ⟨x, ⟨rfl, fun _ => rfl⟩, hux, Or.inl hx⟩
      · have hcom := hok.committing hc
        have hview := db_of_commits hc hs
        dsimp only at hview
        rw [hview] at hx
        obtain ⟨y, halike, huy, hy⟩ := hE.commits _ _ _ hcom x hx hux
        exact ⟨y, halike, huy, hy.imp id fun h => ⟨hcom.shape, h⟩⟩
    refine ⟨fun a ha b hb hua hub hab => ?_, fun j t hj ha => ?_, fun j t hj ha => ?_,
      fun j t hj ha x hx y hy huy => ?_, fun j j' t t' hjj hj hj' ha ha' x hx y hy => ?_⟩
    · obtain ⟨a₀, haa, hua₀, hold⟩ := hdb a ha hua
      obtain ⟨b₀, hbb, hub₀, hold'⟩ := hdb b hb hub
      -- they are not versions of one row, since no two rows have one key
      have hab₀ : a₀ ≠ b₀ := by
        rintro rfl
        have hkey : key a = key b := haa.key.symm.trans hbb.key
        have hget := Db.get_of_mem ha
        rw [hkey, Db.get_of_mem hb] at hget
        exact hab (Option.some.inj hget).symm
      have hclash : clash a b = clash a₀ b₀ := by
        rw [← haa.clash, hcomm, ← hbb.clash, hcomm]
      rw [hclash]
      rcases hold with hold | ⟨hshape, hreq, hnew⟩
      · rcases hold' with hold' | ⟨-, hreq, hnew⟩
        · exact hd.stored a₀ hold b₀ hold' hua₀ hub₀ hab₀
        · exact hd.pending i th hi hreq b₀ hnew a₀ hold hua₀
      · rcases hold' with hold' | ⟨-, -, hnew'⟩
        · rw [hcomm]
          exact hd.pending i th hi hreq a₀ hnew b₀ hold' hub₀
        · exact hE.within _ _ hshape hreq a₀ hnew b₀ hnew' hab₀
    · rcases getElem?_set_cases hj with ⟨-, rfl⟩ | ⟨-, hold⟩
      · rw [hm.req_eq] at ha
        exact (hins ha).1
      · exact hd.emits j t hold ha
    · rcases getElem?_set_cases hj with ⟨-, rfl⟩ | ⟨-, hold⟩
      · rw [hm.req_eq] at ha
        exact (hins ha).2.1
      · exact hd.writes j t hold ha
    · rcases getElem?_set_cases hj with ⟨-, rfl⟩ | ⟨hji, hold⟩
      · rw [hm.req_eq] at ha
        obtain ⟨rfl, hx | ⟨hx, -⟩⟩ := (hins ha).2.2 x hx
        · exact hd.pending i th hi ha x hx y hy huy
        · exact hx y hy
      · obtain ⟨y₀, halike, huy₀, hy₀ | ⟨-, hreq, hy₀⟩⟩ := hdb y hy huy
        · rw [← halike.clash]
          exact hd.pending j t hold ha x hx y₀ hy₀ huy₀
        · rw [← halike.clash]
          exact hd.apart j i t th hji hold hi ha hreq x hx y₀ hy₀
    · rcases getElem?_set_cases hj with ⟨hji, rfl⟩ | ⟨hji, hold⟩
      · rcases getElem?_set_cases hj' with ⟨hji', -⟩ | ⟨hji', hold'⟩
        · exact absurd (hji.trans hji'.symm) hjj
        · rw [hm.req_eq] at ha
          rcases ((hins ha).2.2 x hx).2 with hx | ⟨-, hx⟩
          · exact hd.apart i j' th t' (Ne.symm hji') hi hold' ha ha' x hx y hy
          · exact hx j' t' hji' hold' y hy
      · rcases getElem?_set_cases hj' with ⟨-, rfl⟩ | ⟨-, hold'⟩
        · rw [hm.req_eq] at ha'
          rw [hcomm]
          rcases ((hins ha').2.2 y hy).2 with hy | ⟨-, hy⟩
          · rw [hcomm]
            exact hd.apart j i t th hji hold hi ha ha' x hx y hy
          · exact hy j t hji hold x hx
        · exact hd.apart j j' t t' hjj hold hold' ha ha' x hx y hy

/-- The requests delete nothing, and insert the rows under the check. -/
theorem enters_of_keepsRows (hV : Versions (Alike (R := R))) (hU : ∀ a b, Alike a b → U b → U a)
    (hemits : ∀ req, A req → (S.handle req).Emits fun q => q.keepsRows = true)
    (hinserts : ∀ req tx, P.shape req tx → ∀ x ∈ Sys.inserted tx, U x → A req)
    (hwithin : ∀ req tx, P.shape req tx → A req →
      ∀ a ∈ Sys.inserted tx, ∀ b ∈ Sys.inserted tx, a ≠ b → clash a b = false) :
    Enters P S (fun q => q.keepsRows = true) (fun w => ∀ k, w ≠ .delete k) U A := by
  refine ⟨fun q hq => ⟨hq, fun w hadd k hw => ?_⟩,
    fun tx hw db y hy => version_of_mem_applyAll hV hw hy, hemits,
    fun db req tx hcom x hx hux => ?_, hwithin⟩
  · subst hw
    cases q with
    | insert r => obtain ⟨_, h⟩ := hadd; cases h
    | insertNew rs => obtain ⟨_, h⟩ := hadd; cases h
    | upsert rs => cases hq
    | delete k => cases hq
    | _ => cases hadd
  · obtain ⟨y, halike, hy⟩ := exists_version_of_mem_applyAll hV hx
    have huy := hU y x halike hux
    refine ⟨y, halike, huy, hy.imp id fun hy => ?_⟩
    have hnew := mem_inserted.2 hy
    exact ⟨hinserts req tx hcom.shape y hnew huy, hnew⟩

/-! ## Rows that are never written again -/

/-- Rows that are inserted under the check, and never written otherwise, enter so. -/
theorem Inserts.enters (hI : Inserts P S U A) :
    Enters P S (fun q => q.insertsOnly = true) (fun w => ∃ x, w = .insert x) U A := by
  refine ⟨fun q hq => ⟨Stmt.keepsRows_of_insertsOnly hq, fun w hadd => ?_⟩,
    fun tx hw db y hy => ⟨y, mem_view_of_inserts hw hy, ⟨rfl, fun _ => rfl⟩⟩, hI.emits,
    fun db req tx hcom x hx hux => ?_, hI.within⟩
  · exact Stmt.insert_of_adds hq hadd
  · exact ⟨x, ⟨rfl, fun _ => rfl⟩, hux, hI.commits db req tx hcom x hx hux⟩

/-- **No step lets two rows clash** that are never written again. -/
theorem distinct_step (hI : Inserts P S U A) (hcomm : ∀ a b : R, clash a b = clash b a)
    {s s' : Sys R Req ε α} {l : Label Req} (hok : P.Ok s) (hd : Distinct U A s)
    (hs : step S s l = some s') : Distinct U A s' := by
  have hapart := apart_step hI.enters hcomm hok
    ⟨hd.stored, hd.emits, hd.writes, hd.pending, hd.apart⟩ hs
  exact ⟨hapart.stored, hapart.emits, hapart.writes, hapart.pending, hapart.apart⟩

omit [DecidableEq K] in
/-- A state in which no request has arrived is in order as far as its store is. -/
theorem apart_of_no_threads {ok : Stmt R K W → Prop} {good : Write R K → Prop}
    {s : Sys R Req ε α} (h : s.threads = [])
    (hs : ∀ a ∈ s.db.rows, ∀ b ∈ s.db.rows, U a → U b → a ≠ b → clash a b = false) :
    Apart ok good U A s :=
  ⟨hs, fun i th hi => by simp [h] at hi, fun i th hi => by simp [h] at hi,
    fun i th hi => by simp [h] at hi, fun i j ti tj _ hi => by simp [h] at hi⟩

omit [DecidableEq K] in
/-- A state in which no request has arrived is in order as far as its store is. -/
theorem distinct_of_no_threads {s : Sys R Req ε α} (h : s.threads = [])
    (hs : ∀ a ∈ s.db.rows, ∀ b ∈ s.db.rows, U a → U b → a ≠ b → clash a b = false) :
    Distinct U A s :=
  ⟨hs, fun i th hi => by simp [h] at hi, fun i th hi => by simp [h] at hi,
    fun i th hi => by simp [h] at hi, fun i j ti tj _ hi => by simp [h] at hi⟩

end ReadCommitted
