import GpuNetwork.Store.Logic
import GpuNetwork.Store.Soundness

/-!
# Programs that run alone

What becomes of a program between whose statements nobody else does anything.  It is then
a function of the store and of what its statements find besides: the readings of the
clock and the random choices, one `Moment` for each.

* `World`, `Prog.alone` — the function.
* `alone_bind` — programs run one after the other.
* `alone_select`, … — the statements.
* `Prog.Leads`, `leads_bind`, … — what holds of all that can come of a program, by rules.
* `commits_of_alone` — its commits have the shape the handlers promise.
* `alone_of_reads` — a program that only reads leaves the store as it is.
* `alone_of_runFrom` — it is what the server does with a request that nobody disturbs.
-/

namespace ReadCommitted

open Schema

variable {R K W ε α β : Type}

/-- What a statement finds besides the store. -/
structure Moment where
  /-- The clock. -/
  now : Time
  /-- When the transaction began. -/
  begunAt : Time
  /-- The number that is drawn, or the row of several that is returned. -/
  pick : Nat

/-- Nobody else holds a lock or has rows in flight. -/
def Moment.env (m : Moment) : Env R K :=
  { held := [], inflight := [], now := m.now, begunAt := m.begunAt, pick := m.pick }

variable [Schema R K W]

/-- A store with the session of a program, and what its next statements will find. -/
structure World (R K W : Type) [Schema R K W] where
  db : Db R
  ses : Session R K W := {}
  moments : Nat → Moment

namespace World

/-- The session goes on as `ses` on the store `db`. -/
def next (w : World R K W) (db : Db R) (ses : Session R K W) : World R K W :=
  { db, ses, moments := fun n => w.moments (n + 1) }

/-- A statement has read the store. -/
def reads (w : World R K W) (q : Stmt R K W) : World R K W := w.next w.db (w.ses.reads q w.db)

end World

variable [DecidableEq K]

/-- What a program comes to that runs alone, and the world it leaves. -/
def Prog.alone (sqlError : SqlError → ε) :
    Prog R K W ε α → World R K W → Except ε α × World R K W
  | .ret a, w => (.ok a, w)
  | .throw e, w => (.error e, w)
  | .stmt q k, w =>
    match ReadCommitted.exec (w.moments 0).env w.db w.ses q with
    -- nobody is there to wait for
    | .blocked => (.error (sqlError .aborted), w.next w.db w.ses.reset)
    | .error e => (.error (sqlError e), w.next w.db w.ses.reset)
    | .ok r ses db => (k r).alone sqlError (w.next db ses)

variable {sqlError : SqlError → ε} {w w' : World R K W}

@[simp] theorem alone_ret (a : α) :
    (Prog.ret a : Prog R K W ε α).alone sqlError w = (.ok a, w) := rfl

@[simp] theorem alone_throw (e : ε) :
    (Prog.throw e : Prog R K W ε α).alone sqlError w = (.error e, w) := rfl

/-- **One program after the other.** -/
theorem alone_bind (x : Prog R K W ε α) (f : α → Prog R K W ε β) (w : World R K W) :
    (x >>= f).alone sqlError w =
      match x.alone sqlError w with
      | (.ok a, w') => (f a).alone sqlError w'
      | (.error e, w') => (.error e, w') := by
  induction x generalizing w with
  | ret a => rfl
  | throw e => rfl
  | stmt q k ih =>
    rw [Prog.stmt_bind, Prog.alone, Prog.alone]
    cases exec (w.moments 0).env w.db w.ses q with
    | blocked => rfl
    | error e => rfl
    | ok r ses db => exact ih r _

/-- A program that goes through has gone through part by part. -/
theorem ok_of_bind {x : Prog R K W ε α} {f : α → Prog R K W ε β} {b : β}
    (h : (x >>= f).alone sqlError w = (.ok b, w')) :
    ∃ a w₁, x.alone sqlError w = (.ok a, w₁) ∧ (f a).alone sqlError w₁ = (.ok b, w') := by
  rw [alone_bind] at h
  split at h
  · rename_i a w₁ hx
    exact ⟨a, w₁, hx, h⟩
  · cases h

theorem bars_of_alone (m : Moment) (ls : List (Lock K)) :
    (m.env : Env R K).bars ls = false := by
  simp [Env.bars, Moment.env]

theorem pends_of_alone (m : Moment) (r : R) : (m.env : Env R K).pends r = false := rfl

section Statements

variable {k' : K} {r : R}

theorem alone_now (k : Time → Prog R K W ε α) :
    (Prog.stmt .now k).alone sqlError w =
      (k (w.moments 0).now).alone sqlError (w.next w.db w.ses) := rfl

theorem alone_random (k : Nat → Prog R K W ε α) :
    (Prog.stmt .random k).alone sqlError w =
      (k (w.moments 0).pick).alone sqlError (w.next w.db w.ses) := rfl

theorem alone_txTime (k : Time → Prog R K W ε α) :
    (Prog.stmt .txTime k).alone sqlError w =
      (k (w.moments 0).begunAt).alone sqlError (w.next w.db w.ses) := rfl

theorem alone_select (wh : W) (k : Option R → Prog R K W ε α) :
    (Prog.stmt (.select wh) k).alone sqlError w =
      (k (pickRow (w.moments 0).pick (matching (w.ses.tx.view w.db) wh))).alone sqlError
        (w.reads (.select wh)) := rfl

/-- An `UPDATE` that matches a row. -/
theorem alone_update {old new cur : R} (hcur : (w.ses.tx.view w.db).get (key old) = some cur)
    (hstore : storableOver old new = true) (hrefs : newRefs old new = [])
    (k : Bool → Prog R K W ε α) :
    (Prog.stmt (.update old new) k).alone sqlError w = (k true).alone sqlError
      (w.next w.db (w.ses.takes (.update old new) w.db [.update old new]
        (updateLocks old new))) := by
  rw [Prog.alone]
  simp [exec, hcur, hstore, bars_of_alone, hrefs, present]

/-- A candidate row that can be locked: nobody else has locked it. -/
theorem alone_tryLock (wh : W) (k' : K) (k : Option R → Prog R K W ε α) :
    (Prog.stmt (.tryLock wh k') k).alone sqlError w =
      match (w.ses.tx.view w.db).get k' with
      | none => (k none).alone sqlError (w.reads (.tryLock wh k'))
      | some r =>
        if holds wh r then (k (some r)).alone sqlError (w.next w.db
          (w.ses.takes (.tryLock wh k') w.db [] [⟨k', .update⟩]))
        else (k none).alone sqlError (w.reads (.tryLock wh k')) := by
  rw [Prog.alone]
  simp only [exec, bars_of_alone]
  cases (w.ses.tx.view w.db).get k' with
  | none => rfl
  | some r =>
    by_cases hh : holds wh r = true
    · simp [hh]
    · simp [hh]; rfl

end Statements

section Same

omit [DecidableEq K]

/-- The two worlds have the same store, and their sessions the same writes. -/
structure World.Same (w w' : World R K W) : Prop where
  db : w'.db = w.db
  writes : w'.ses.tx.writes = w.ses.tx.writes
  past : w'.ses.past = w.ses.past

theorem World.Same.refl (w : World R K W) : w.Same w := ⟨rfl, rfl, rfl⟩

theorem World.Same.trans {w w' w'' : World R K W} (h : w.Same w') (h' : w'.Same w'') :
    w.Same w'' := ⟨h'.db.trans h.db, h'.writes.trans h.writes, h'.past.trans h.past⟩

theorem World.same_reads (w : World R K W) (q : Stmt R K W) : w.Same (w.reads q) :=
  ⟨rfl, List.append_nil _, rfl⟩

theorem World.same_next (w : World R K W) : w.Same (w.next w.db w.ses) := ⟨rfl, rfl, rfl⟩

/-- The session has added the writes `ws`, and the store is the same. -/
structure World.Adds (w w' : World R K W) (ws : List (Write R K)) : Prop where
  db : w'.db = w.db
  writes : w'.ses.tx.writes = w.ses.tx.writes ++ ws
  past : w'.ses.past = w.ses.past

theorem World.Same.adds {w w' w'' : World R K W} {ws : List (Write R K)} (h : w.Same w')
    (h' : w'.Adds w'' ws) : w.Adds w'' ws :=
  ⟨h'.db.trans h.db, by rw [h'.writes, h.writes], h'.past.trans h.past⟩

theorem World.Adds.trans {w w' w'' : World R K W} {ws vs : List (Write R K)} (h : w.Adds w' ws)
    (h' : w'.Adds w'' vs) : w.Adds w'' (ws ++ vs) :=
  ⟨h'.db.trans h.db, by rw [h'.writes, h.writes, List.append_assoc], h'.past.trans h.past⟩

theorem World.adds_takes (w : World R K W) (q : Stmt R K W) (ws : List (Write R K))
    (ls : List (Lock K)) : w.Adds (w.next w.db (w.ses.takes q w.db ws ls)) ws := ⟨rfl, rfl, rfl⟩

end Same

theorem World.Same.view {w w' : World R K W} (h : w.Same w') :
    w'.ses.tx.view w'.db = w.ses.tx.view w.db := by
  rw [Tx.view, Tx.view, h.writes, h.db]

theorem World.view_reads (w : World R K W) (q : Stmt R K W) :
    (w.reads q).ses.tx.view (w.reads q).db = w.ses.tx.view w.db := (w.same_reads q).view

theorem World.Adds.view {w w' : World R K W} {ws : List (Write R K)} (h : w.Adds w' ws) :
    w'.ses.tx.view w'.db = applyAll ws (w.ses.tx.view w.db) := by
  rw [Tx.view, Tx.view, h.writes, h.db, applyAll_append]

/-- **A program that only reads leaves the store as it is.** -/
theorem alone_of_reads {x : Prog R K W ε α} (hx : x.Emits fun q => q.reads = true)
    {w w' : World R K W} {res : Except ε α} (h : x.alone sqlError w = (res, w')) : w.Same w' := by
  induction x generalizing w with
  | ret a => cases h; exact World.Same.refl _
  | throw e => cases h; exact World.Same.refl _
  | stmt q k ih =>
    obtain ⟨hq, hk⟩ := hx
    cases q with
    | now => exact w.same_next.trans (ih _ (hk _) h)
    | random => exact w.same_next.trans (ih _ (hk _) h)
    | txTime => exact w.same_next.trans (ih _ (hk _) h)
    | select wh => exact (w.same_reads _).trans (ih _ (hk _) h)
    | selectAll wh => exact (w.same_reads _).trans (ih _ (hk _) h)
    | _ => cases hq

/-! ## What a program leads to -/

section Leads

variable {Q : α → World R K W → Prop} {E : World R K W → Prop}

/-- The program returns a value with `Q`, or raises an error and leaves a world with `E`. -/
def Prog.Leads (sqlError : SqlError → ε) (x : Prog R K W ε α) (w : World R K W)
    (Q : α → World R K W → Prop) (E : World R K W → Prop) : Prop :=
  match x.alone sqlError w with
  | (.ok a, w') => Q a w'
  | (.error _, w') => E w'

theorem leads_ret {a : α} (h : Q a w) : (Prog.ret a : Prog R K W ε α).Leads sqlError w Q E := h

theorem leads_throw {e : ε} (h : E w) : (Prog.throw e : Prog R K W ε α).Leads sqlError w Q E := h

/-- One program after the other. -/
theorem leads_bind {x : Prog R K W ε β} {f : β → Prog R K W ε α}
    (h : x.Leads sqlError w (fun b w' => (f b).Leads sqlError w' Q E) E) :
    (x >>= f).Leads sqlError w Q E := by
  unfold Prog.Leads at h ⊢
  rw [alone_bind]
  split at h
  · exact h
  · exact h

/-- A program that only reads leads to a world with the same store. -/
theorem leads_of_reads {x : Prog R K W ε α} (hx : x.Emits fun q => q.reads = true)
    (hQ : ∀ a w', w.Same w' → x.alone sqlError w = (.ok a, w') → Q a w')
    (hE : ∀ w', w.Same w' → E w') : x.Leads sqlError w Q E := by
  unfold Prog.Leads
  split
  · rename_i a w' h
    exact hQ a w' (alone_of_reads hx h) h
  · rename_i e w' h
    exact hE w' (alone_of_reads hx h)

/-- A program that goes through leads where it goes. -/
theorem Prog.Leads.of_ok {x : Prog R K W ε α} (h : x.Leads sqlError w Q E) {a : α}
    (hx : x.alone sqlError w = (.ok a, w')) : Q a w' := by
  unfold Prog.Leads at h
  rwa [hx] at h

/-- One that fails. -/
theorem Prog.Leads.of_error {x : Prog R K W ε α} (h : x.Leads sqlError w Q E) {e : ε}
    (hx : x.alone sqlError w = (.error e, w')) : E w' := by
  unfold Prog.Leads at h
  rwa [hx] at h

/-- A program that cannot fail goes through. -/
theorem Prog.Leads.exists_ok {x : Prog R K W ε α} (h : x.Leads sqlError w Q fun _ => False) :
    ∃ a w', x.alone sqlError w = (.ok a, w') ∧ Q a w' := by
  unfold Prog.Leads at h
  split at h
  · rename_i a w' hx
    exact ⟨a, w', hx, h⟩
  · cases h

/-- Where it is known what a program comes to. -/
theorem leads_of_ok {x : Prog R K W ε α} {a : α} (h : x.alone sqlError w = (.ok a, w'))
    (hQ : Q a w') : x.Leads sqlError w Q E := by
  unfold Prog.Leads
  rw [h]
  exact hQ

/-- A program that goes through under a condition, and fails otherwise. -/
theorem Prog.Leads.exists_ok_iff {x : Prog R K W ε α} {C : Prop}
    (h : x.Leads sqlError w (fun a w' => C ∧ Q a w') fun _ => ¬ C) :
    (∃ a w', x.alone sqlError w = (.ok a, w') ∧ Q a w') ↔ C := by
  constructor
  · rintro ⟨a, w', hx, -⟩
    exact (h.of_ok hx).1
  · intro hC
    have hok : x.Leads sqlError w Q fun _ => False := by
      unfold Prog.Leads at h ⊢
      split at h
      · exact h.2
      · exact h hC
    exact hok.exists_ok

/-- A statement that is refused ends the program, and its transaction with it. -/
theorem leads_stmt {q : Stmt R K W} {k : q.Res → Prog R K W ε α}
    (hE : E (w.next w.db w.ses.reset))
    (h : ∀ r ses db, ReadCommitted.exec (w.moments 0).env w.db w.ses q = .ok r ses db →
      (k r).Leads sqlError (w.next db ses) Q E) :
    (Prog.stmt q k).Leads sqlError w Q E := by
  unfold Prog.Leads
  rw [Prog.alone]
  cases he : ReadCommitted.exec (w.moments 0).env w.db w.ses q with
  | blocked => exact hE
  | error e => exact hE
  | ok r ses db => exact h r ses db he

/-- An `UPDATE` matches its row and notes the write, or matches none. -/
theorem leads_update {old new : R} {k : Bool → Prog R K W ε α}
    (hE : E (w.next w.db w.ses.reset))
    (hfound : ∀ cur, (w.ses.tx.view w.db).get (key old) = some cur → storableOver old new = true →
      (k true).Leads sqlError (w.next w.db (w.ses.takes (.update old new) w.db
        [.update old new] (updateLocks old new))) Q E)
    (hnone : (w.ses.tx.view w.db).get (key old) = none →
      (k false).Leads sqlError (w.reads (.update old new)) Q E) :
    (Prog.stmt (.update old new) k).Leads sqlError w Q E := by
  refine leads_stmt hE fun r ses db he => ?_
  simp only [exec] at he
  split at he
  · rename_i hget
    cases he
    exact hnone hget
  · rename_i cur hget
    split at he <;> try cases he
    rename_i hstore
    split at he <;> try cases he
    split at he <;> cases he
    exact hfound cur hget (by simpa using hstore)

/-- An `INSERT` notes a row that clashes with none. -/
theorem leads_insert {r : R} {k : Unit → Prog R K W ε α} (hE : E (w.next w.db w.ses.reset))
    (h : occupied (w.ses.tx.view w.db) r = false → storable r = true →
      present (w.ses.tx.view w.db) ((refs r).map Prod.snd) = true →
      (k ()).Leads sqlError (w.next w.db (w.ses.takes (.insert r) w.db [.insert r]
        (insertLocks [r]))) Q E) :
    (Prog.stmt (.insert r) k).Leads sqlError w Q E := by
  refine leads_stmt hE fun u ses db he => ?_
  simp only [exec] at he
  split at he <;> try cases he
  rename_i hstore
  split at he <;> try cases he
  rename_i hocc
  split at he <;> try cases he
  split at he <;> cases he
  rename_i hpresent
  exact h (by simpa using hocc) (by simpa using hstore) (by simpa using hpresent)

/-- An `INSERT` of a row whose references are there is refused for what it stores or for a row
that is there, and for nothing else. -/
theorem leads_insert_cases {r : R} {k : Unit → Prog R K W ε α}
    (hrefs : present (w.ses.tx.view w.db) ((refs r).map Prod.snd) = true)
    (hE : storable r = false ∨ occupied (w.ses.tx.view w.db) r = true → E (w.next w.db w.ses.reset))
    (h : storable r = true → occupied (w.ses.tx.view w.db) r = false →
      (k ()).Leads sqlError (w.next w.db (w.ses.takes (.insert r) w.db [.insert r]
        (insertLocks [r]))) Q E) :
    (Prog.stmt (.insert r) k).Leads sqlError w Q E := by
  unfold Prog.Leads
  rw [Prog.alone]
  simp only [exec]
  by_cases hstore : storable r = true
  · by_cases hocc : occupied (w.ses.tx.view w.db) r = true
    · rw [if_neg (by simp [hstore]), if_pos hocc]
      exact hE (Or.inr hocc)
    · rw [if_neg (by simp [hstore]), if_neg hocc,
        if_neg (by simp [pends_of_alone, bars_of_alone]), if_neg (by simp [hrefs])]
      exact h hstore (by simpa using hocc)
  · rw [if_pos (by simpa using hstore)]
    exact hE (Or.inl (by simpa using hstore))

/-- An `INSERT … ON CONFLICT DO NOTHING` of rows whose references are there is refused for
what is stored or how much of it, and for nothing else. -/
theorem leads_insertNew {rs : List R} {k : Nat → Prog R K W ε α}
    (hrefs : ∀ r ∈ rs, present (w.ses.tx.view w.db) ((refs r).map Prod.snd) = true)
    (hE : sendable rs = false → E (w.next w.db w.ses.reset))
    (h : sendable rs = true →
      (k (newRows (w.ses.tx.view w.db) rs).length).Leads sqlError
        (w.next w.db (w.ses.takes (.insertNew rs) w.db
          ((newRows (w.ses.tx.view w.db) rs).map .insert)
          (insertLocks (newRows (w.ses.tx.view w.db) rs)))) Q E) :
    (Prog.stmt (.insertNew rs) k).Leads sqlError w Q E := by
  unfold Prog.Leads
  rw [Prog.alone]
  simp only [exec]
  by_cases hsend : sendable rs = true
  · have hpresent : (newRows (w.ses.tx.view w.db) rs).all (fun r =>
        present (w.ses.tx.view w.db) ((refs r).map Prod.snd)) = true :=
      List.all_eq_true.2 fun r hr => hrefs r (mem_of_mem_newRows hr)
    rw [if_neg (by simp [hsend]), if_neg (by simp [pends_of_alone, bars_of_alone]),
      if_neg (by simp [hpresent])]
    exact h hsend
  · rw [if_pos (by simpa using hsend)]
    exact hE (by simpa using hsend)

/-- An `INSERT … ON CONFLICT DO UPDATE` of rows whose references are there is refused for
what is stored or how much of it or for two rows with one key, and for nothing else. -/
theorem leads_upsert {rs : List R} {k : Unit → Prog R K W ε α}
    (hrefs : ∀ r ∈ rs, present (w.ses.tx.view w.db) ((refs r).map Prod.snd) = true)
    (hE : ¬ (sendable rs = true ∧ (rs.map (key (R := R))).Nodup) → E (w.next w.db w.ses.reset))
    (h : sendable rs = true → (rs.map (key (R := R))).Nodup →
      (k ()).Leads sqlError (w.next w.db (w.ses.takes (.upsert rs) w.db
        (rs.map (upsertWrite (w.ses.tx.view w.db))) (insertLocks rs))) Q E) :
    (Prog.stmt (.upsert rs) k).Leads sqlError w Q E := by
  unfold Prog.Leads
  rw [Prog.alone]
  simp only [exec]
  by_cases hsend : sendable rs = true
  · rw [if_neg (by simp [hsend])]
    by_cases hnd : (rs.map (key (R := R))).Nodup
    · have hpresent : rs.all (fun r => present (w.ses.tx.view w.db)
          ((refs r).map Prod.snd)) = true := List.all_eq_true.2 hrefs
      rw [if_pos hnd, if_neg (by simp [pends_of_alone, bars_of_alone]), if_neg (by simp [hpresent])]
      exact h hsend hnd
    · rw [if_neg hnd]
      exact hE fun hboth => hnd hboth.2
  · rw [if_pos (by simpa using hsend)]
    exact hE fun hboth => hsend hboth.1

/-- An `UPDATE` that matches a row and changes no reference. -/
theorem leads_update_of {old new cur : R} (hcur : (w.ses.tx.view w.db).get (key old) = some cur)
    (hstore : storableOver old new = true) (hrefs : newRefs old new = [])
    {k : Bool → Prog R K W ε α}
    (h : (k true).Leads sqlError (w.next w.db (w.ses.takes (.update old new) w.db
      [.update old new] (updateLocks old new))) Q E) :
    (Prog.stmt (.update old new) k).Leads sqlError w Q E := by
  unfold Prog.Leads
  rw [alone_update hcur hstore hrefs]
  exact h

theorem leads_now {k : Time → Prog R K W ε α}
    (h : (k (w.moments 0).now).Leads sqlError (w.next w.db w.ses) Q E) :
    (Prog.stmt .now k).Leads sqlError w Q E := h

theorem leads_random {k : Nat → Prog R K W ε α}
    (h : (k (w.moments 0).pick).Leads sqlError (w.next w.db w.ses) Q E) :
    (Prog.stmt .random k).Leads sqlError w Q E := h

theorem leads_txTime {k : Time → Prog R K W ε α}
    (h : (k (w.moments 0).begunAt).Leads sqlError (w.next w.db w.ses) Q E) :
    (Prog.stmt .txTime k).Leads sqlError w Q E := h

theorem leads_select {wh : W} {k : Option R → Prog R K W ε α}
    (h : (k (pickRow (w.moments 0).pick (matching (w.ses.tx.view w.db) wh))).Leads sqlError
      (w.reads (.select wh)) Q E) : (Prog.stmt (.select wh) k).Leads sqlError w Q E := h

/-- A `SELECT` of which it is known what it finds. -/
theorem leads_select_of {wh : W} {k : Option R → Prog R K W ε α} {o : Option R}
    (ho : pickRow (w.moments 0).pick (matching (w.ses.tx.view w.db) wh) = o)
    (h : (k o).Leads sqlError (w.reads (.select wh)) Q E) :
    (Prog.stmt (.select wh) k).Leads sqlError w Q E := by
  subst ho
  exact leads_select h

theorem leads_selectAll {wh : W} {k : List R → Prog R K W ε α}
    (h : (k (matching (w.ses.tx.view w.db) wh)).Leads sqlError (w.reads (.selectAll wh)) Q E) :
    (Prog.stmt (.selectAll wh) k).Leads sqlError w Q E := h

/-- A row that is there and that nobody else has locked. -/
theorem leads_tryLock_of {wh : W} {k' : K} {k : Option R → Prog R K W ε α} {r : R}
    (hget : (w.ses.tx.view w.db).get k' = some r) (hholds : holds wh r = true)
    (h : (k (some r)).Leads sqlError (w.next w.db
      (w.ses.takes (.tryLock wh k') w.db [] [⟨k', .update⟩])) Q E) :
    (Prog.stmt (.tryLock wh k') k).Leads sqlError w Q E := by
  unfold Prog.Leads
  rw [alone_tryLock, hget]
  simp only [hholds, if_true]
  exact h

theorem leads_commit {k : Unit → Prog R K W ε α}
    (h : (k ()).Leads sqlError (w.next (w.ses.tx.view w.db) w.ses.committed) Q E) :
    (Prog.stmt .commit k).Leads sqlError w Q E := h

theorem leads_rollback {k : Unit → Prog R K W ε α}
    (h : (k ()).Leads sqlError (w.next w.db w.ses.reset) Q E) :
    (Prog.stmt .rollback k).Leads sqlError w Q E := h

end Leads

/-! ## Commits -/

section Commits

variable {Req γ : Type} {P : Spec R K W Req ε γ} {req : Req}

/-- The transactions leave `db'` when they commit one after the other on `db`. -/
def Spec.CommitAll (P : Spec R K W Req ε γ) (req : Req) : Db R → List (Tx R K W) → Db R → Prop
  | db, [], db' => db' = db
  | db, tx :: txs, db' => P.Committing db req tx ∧ P.CommitAll req (tx.view db) txs db'

/-- What every commit keeps, all of them keep. -/
theorem Spec.CommitAll.keeps {I : Db R → Prop}
    (hI : ∀ a tx, P.Committing a req tx → I a → I (tx.view a)) {txs : List (Tx R K W)}
    {db db' : Db R} (h : P.CommitAll req db txs db') (hdb : I db) : I db' := by
  induction txs generalizing db with
  | nil => cases h; exact hdb
  | cons tx txs ih => exact ih h.2 (hI db tx h.1 hdb)

/-- Where nobody else commits, an open transaction finds everything as it was. -/
theorem Spec.since_of_current {tx : Tx R K W} {db : Db R} (h : ∀ e ∈ tx.log, e.db = db) :
    P.Since req tx db := by
  refine ⟨fun e he l _ => ?_, fun e he => ?_⟩
  · rw [h e he]
    exact Lock.Frame.refl l db
  · rw [h e he]
    exact Relation.ReflTransGen.refl

/-- **The commits of a program that runs alone** have their shape. -/
theorem commits_of_alone {x : Prog R K W ε β} {Q : β → Session R K W → Prop}
    (hx : P.Wp req x w.ses Q) (hcur : ∀ e ∈ w.ses.tx.log, e.db = w.db) {res : Except ε β}
    (h : x.alone sqlError w = (res, w')) :
    ∃ txs, w'.ses.past = w.ses.past ++ txs ∧ P.CommitAll req w.db txs w'.db := by
  induction x generalizing w with
  | ret b => cases h; exact ⟨[], (List.append_nil _).symm, rfl⟩
  | throw e => cases h; exact ⟨[], (List.append_nil _).symm, rfl⟩
  | stmt q k ih =>
    have hsince : P.Since req w.ses.tx w.db := Spec.since_of_current hcur
    have hq := hx (w.moments 0).env w.db hsince
    rw [Prog.alone] at h
    cases he : ReadCommitted.exec (w.moments 0).env w.db w.ses q with
    | blocked => rw [he] at h; cases h; exact ⟨[], (List.append_nil _).symm, rfl⟩
    | error e => rw [he] at h; cases h; exact ⟨[], (List.append_nil _).symm, rfl⟩
    | ok r ses db =>
      rw [he] at h hq
      obtain ⟨hshape, hrest⟩ := hq
      have hgo : (∀ e ∈ ses.tx.log, e.db = db) → ∃ txs, w'.ses.past = ses.past ++ txs ∧
          P.CommitAll req db txs w'.db :=
        fun hlog => ih r (w := w.next db ses) hrest hlog h
      rcases exec_cases he with ⟨-, rfl, hg⟩ | ⟨-, rfl, rfl⟩ | ⟨rfl, rfl, rfl⟩
      · have hpast : ses.past = w.ses.past := by
          cases hg with
          | same => rfl
          | takes _ _ => rfl
        rw [← hpast]
        refine hgo fun e hmem => ?_
        rcases exec_log he e hmem with hold | ⟨hdb, -⟩
        · exact hcur e hold
        · exact hdb
      · exact hgo (by simp)
      · obtain ⟨txs, hpast, hall⟩ := hgo (by simp)
        refine ⟨w.ses.tx :: txs, ?_, { hsince with shape := hshape rfl }, hall⟩
        rw [hpast]
        simp [Session.committed]

end Commits

/-! ## On a server -/

/-- What a program has come to that has nothing left to do. -/
def Prog.result : Prog R K W ε α → Option (Except ε α)
  | .ret a => some (.ok a)
  | .throw e => some (.error e)
  | .stmt _ _ => none

variable {Req : Type} {S : Server R K W Req ε α} {s s' : Sys R Req ε α}

omit [DecidableEq K] in
/-- Nobody but thread `i` holds a lock or has rows in flight. -/
theorem env_of_idle {i : Nat} (th : Thread R K W Req ε α)
    (hothers : ∀ t ∈ s.others i, t.ses.tx = {}) (pick : Nat) :
    s.env i th pick = (⟨s.clock, th.begunAt.getD s.clock, pick⟩ : Moment).env := by
  have hheld : (s.others i).flatMap (fun t => t.ses.tx.locks) = [] := by
    rw [List.flatMap_eq_nil_iff]
    intro t ht
    rw [hothers t ht, Tx.locks_empty]
  have hinflight : (s.others i).flatMap (fun t => Sys.inserted t.ses.tx) = [] := by
    rw [List.flatMap_eq_nil_iff]
    intro t ht
    rw [hothers t ht]
    rfl
  simp [Sys.env, Moment.env, hheld, hinflight]

/-- A run in which thread `i` takes its steps while the clock moves on. -/
def OnlyRuns (i : Nat) (ls : List (Label Req)) : Prop :=
  ∀ l ∈ ls, (∃ pick, l = .run i pick) ∨ ∃ d, l = .tick d

/-- The world of a thread. -/
def Thread.world (th : Thread R K W Req ε α) (db : Db R) (moments : Nat → Moment) :
    World R K W := ⟨db, th.ses, moments⟩

/-- The moments of a program, the first of which is `m`. -/
def Moment.cons (m : Moment) (moments : Nat → Moment) : Nat → Moment
  | 0 => m
  | n + 1 => moments n

/-- The clock does not go back, and starts at `t` or later. -/
structure Forward (t : Time) (moments : Nat → Moment) : Prop where
  start : ∀ n, t ≤ (moments n).now
  mono : ∀ m n, m ≤ n → (moments m).now ≤ (moments n).now

theorem Forward.cons {m : Moment} {moments : Nat → Moment} (h : Forward m.now moments) :
    Forward m.now (Moment.cons m moments) := by
  constructor
  · intro n
    cases n with
    | zero => exact le_rfl
    | succ n => exact h.start n
  · intro i j hij
    cases i with
    | zero =>
      cases j with
      | zero => exact le_rfl
      | succ j => exact h.start j
    | succ i =>
      cases j with
      | zero => omega
      | succ j => exact h.mono i j (by omega)

theorem Forward.later {t t' : Time} {moments : Nat → Moment} (h : Forward t' moments)
    (ht : t ≤ t') : Forward t moments :=
  ⟨fun n => ht.trans (h.start n), h.mono⟩

/-- What a finished program has come to. -/
theorem alone_of_result {x : Prog R K W ε α} {res : Except ε α} (h : x.result = some res) :
    x.alone sqlError w = (res, w) := by
  cases x with
  | ret a => cases h; rfl
  | throw e => cases h; rfl
  | stmt q k => cases h

/-- A step of a thread that nobody disturbs. -/
theorem alone_of_step {i pick : Nat} {th th₁ : Thread R K W Req ε α}
    (hi : s.threads[i]? = some th) (hothers : ∀ t ∈ s.others i, t.ses.tx = {})
    (hs : step S s (.run i pick) = some s') (hi₁ : s'.threads[i]? = some th₁)
    {moments : Nat → Moment} {res : Except ε α} {w' : World R K W}
    (h : th₁.prog.alone S.sqlError (th₁.world s'.db moments) = (res, w')) :
    ∃ w'', th.prog.alone S.sqlError (th.world s.db
      (Moment.cons ⟨s.clock, th.begunAt.getD s.clock, pick⟩ moments)) = (res, w'') ∧
        w''.db = w'.db := by
  have hset : ∀ t : Thread R K W Req ε α, (s.threads.set i t)[i]? = some t := fun t =>
    List.getElem?_set_self (List.getElem?_eq_some_iff.1 hi).1
  have henv := env_of_idle th hothers pick
  simp only [step, hi] at hs
  cases hp : th.prog with
  | stmt q k =>
    rw [hp] at hs
    simp only [henv] at hs
    rw [Prog.alone]
    simp only [Thread.world, Moment.cons]
    cases he : exec (Moment.env ⟨s.clock, th.begunAt.getD s.clock, pick⟩) s.db th.ses q with
    | blocked =>
      rw [he] at hs
      cases hs
    | error e =>
      rw [he] at hs
      cases hs
      rw [hset, Option.some.injEq] at hi₁
      subst hi₁
      cases h
      exact ⟨_, rfl, rfl⟩
    | ok r ses db =>
      rw [he] at hs
      cases hs
      rw [hset, Option.some.injEq] at hi₁
      subst hi₁
      exact ⟨w', h, rfl⟩
  | ret a =>
    rw [hp] at hs
    cases hs
    rw [hset, Option.some.injEq] at hi₁
    subst hi₁
    cases h
    exact ⟨_, rfl, rfl⟩
  | throw e =>
    rw [hp] at hs
    cases hs
    rw [hset, Option.some.injEq] at hi₁
    subst hi₁
    cases h
    exact ⟨_, rfl, rfl⟩

/-- **A request that nobody disturbs is answered as its program is that runs alone.** -/
theorem alone_of_runFrom {i : Nat} {ls : List (Label Req)} (hls : OnlyRuns i ls)
    {th th' : Thread R K W Req ε α} (hi : s.threads[i]? = some th)
    (hothers : ∀ t ∈ s.others i, t.ses.tx = {}) (hrun : runFrom S s ls = some s')
    (hi' : s'.threads[i]? = some th') {res : Except ε α} (hres : th'.prog.result = some res) :
    ∃ moments w', Forward s.clock moments ∧
      th.prog.alone S.sqlError (th.world s.db moments) = (res, w') ∧ w'.db = s'.db := by
  induction ls generalizing s th with
  | nil =>
    cases hrun
    rw [hi, Option.some.injEq] at hi'
    subst hi'
    exact ⟨fun _ => ⟨s'.clock, s'.clock, 0⟩, _, ⟨fun _ => le_rfl, fun _ _ _ => le_rfl⟩,
      alone_of_result hres, rfl⟩
  | cons l ls ih =>
    rw [runFrom_cons, Option.bind_eq_some_iff] at hrun
    obtain ⟨s₁, hs, hrun⟩ := hrun
    have hls' : OnlyRuns i ls := fun l hl => hls l (List.mem_cons_of_mem _ hl)
    rcases hls l (List.mem_cons_self ..) with ⟨pick, rfl⟩ | ⟨d, rfl⟩
    · obtain ⟨th₁, hth, hclock, hothers₁⟩ : ∃ th₁, s₁.threads = s.threads.set i th₁ ∧
          s₁.clock = s.clock ∧ ∀ t ∈ s₁.others i, t.ses.tx = {} := by
        rcases step_cases hs with ⟨req, hl, -⟩ | ⟨d, hl, -⟩ | ⟨j, t, t', db, hj, hl, -, rfl⟩
        · cases hl
        · cases hl
        · rcases hl with ⟨pick', hl⟩ | hl
          · cases hl
            refine ⟨t', rfl, rfl, ?_⟩
            intro t ht
            rw [Sys.others, List.eraseIdx_set_eq] at ht
            exact hothers t ht
          · cases hl
      have hi₁ : s₁.threads[i]? = some th₁ := by
        rw [hth, List.getElem?_set_self (List.getElem?_eq_some_iff.1 hi).1]
      obtain ⟨moments, w', hforward, halone, hdb⟩ := ih hls' hi₁ hothers₁ hrun
      obtain ⟨w'', halone', hdb'⟩ := alone_of_step hi hothers hs hi₁ halone
      rw [hclock] at hforward
      exact ⟨_, w'', Forward.cons (m := ⟨s.clock, _, _⟩) hforward, halone', hdb'.trans hdb⟩
    · cases hs
      obtain ⟨moments, w', hforward, halone⟩ :=
        ih hls' (s := { s with clock := s.clock + d }) hi hothers hrun
      have hd : s.clock ≤ s.clock + (d : Int) := Int.le_add_of_nonneg_right (Int.natCast_nonneg d)
      exact ⟨moments, w', hforward.later hd, halone⟩

end ReadCommitted
