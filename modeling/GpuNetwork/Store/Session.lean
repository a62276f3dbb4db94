import GpuNetwork.Store.Program

/-!
# Sessions: what one statement does

`exec` is the meaning of one statement at isolation level READ COMMITTED.  A
session keeps its writes to itself until it commits; meanwhile it holds locks on
the rows it wrote, on the rows it selected for update and, more weakly, on the
rows its foreign keys point at.

* A plain `SELECT` sees the committed rows and the session's own writes, and
  waits for nobody.
* `INSERT`, `UPDATE` and `DELETE` wait (`Outcome.blocked`) while another session
  holds a conflicting lock, and then apply to the newest committed version of the
  row: the columns a program did not change keep whatever value they have there.
* `tryLock` passes over a locked row, and checks its clause on the newest version
  of a row that it does lock.
* `DELETE` carries the `ON DELETE` actions with it, as writes of their own.

An open transaction `Tx` remembers its statements, each with the store it was executed
on: what it knows, and since when.

The two facts the interleaving semantics needs are `Tx.Covered`, which says that a
transaction has locked what it is going to write, and `exec_locks`: no statement
takes a lock against another session's.
-/

namespace ReadCommitted

open Schema

/-- The strength of a row lock. -/
inductive LockMode where
  /-- Taken on the row a foreign key points at. -/
  | keyShare
  /-- Taken by an `UPDATE`. -/
  | noKeyUpdate
  /-- Taken by `SELECT … FOR UPDATE`, `DELETE` and, on its own row, `INSERT`. -/
  | update
  deriving DecidableEq

namespace LockMode

/-- Two sessions cannot hold these on one row at a time. -/
def conflicts : LockMode → LockMode → Bool
  | .update, _ => true
  | _, .update => true
  | .noKeyUpdate, .noKeyUpdate => true
  | _, _ => false

theorem conflicts_comm (a b : LockMode) : a.conflicts b = b.conflicts a := by
  cases a <;> cases b <;> rfl

theorem conflicts_of_ne_keyShare {a b : LockMode} (ha : a ≠ .keyShare) (hb : b ≠ .keyShare) :
    a.conflicts b = true := by
  cases a <;> cases b <;> simp_all [conflicts]

end LockMode

/-- A lock on the row under a key. -/
structure Lock (K : Type) where
  key : K
  mode : LockMode
  deriving DecidableEq

variable {R K W : Type}

namespace Lock

variable [DecidableEq K]

/-- Two sessions cannot hold these at a time. -/
def conflicts (a b : Lock K) : Bool := decide (a.key = b.key) && a.mode.conflicts b.mode

theorem conflicts_comm (a b : Lock K) : a.conflicts b = b.conflicts a := by
  rw [conflicts, conflicts, LockMode.conflicts_comm, decide_eq_decide.2 eq_comm]

end Lock

variable [Schema R K W]

/-- A write is locked: fully for a deletion, and against other writers for the rest. -/
def Write.CoveredBy (w : Write R K) (ls : List (Lock K)) : Prop :=
  ∃ l ∈ ls, l.key = w.target ∧ l.mode ≠ .keyShare ∧ (∀ k, w = .delete k → l.mode = .update)

/-- A statement of an open transaction, the store it was executed on, and the locks it
took. -/
structure Entry (R K W : Type) [Schema R K W] where
  stmt : Stmt R K W
  db : Db R
  locks : List (Lock K) := []

/-- An open transaction. -/
structure Tx (R K W : Type) [Schema R K W] where
  /-- Its statements, the latest first. -/
  log : List (Entry R K W) := []
  /-- Its writes, in order. -/
  writes : List (Write R K) := []

/-- What the database keeps about one session. -/
structure Session (R K W : Type) [Schema R K W] where
  tx : Tx R K W := {}
  /-- The transactions the session has committed. -/
  past : List (Tx R K W) := []

namespace Session

/-- The transaction is over. -/
def reset (ses : Session R K W) : Session R K W := { past := ses.past }

/-- The transaction is over and its writes are in the store. -/
def committed (ses : Session R K W) : Session R K W := { past := ses.past ++ [ses.tx] }

@[simp] theorem reset_tx (ses : Session R K W) : ses.reset.tx = {} := rfl

@[simp] theorem committed_tx (ses : Session R K W) : ses.committed.tx = {} := rfl

end Session

namespace Tx

/-- The locks the transaction holds. -/
def locks (tx : Tx R K W) : List (Lock K) := tx.log.flatMap (·.locks)

/-- Note a statement, with its writes and the locks it took. -/
def takes (tx : Tx R K W) (q : Stmt R K W) (db : Db R) (ws : List (Write R K))
    (ls : List (Lock K)) : Tx R K W :=
  { log := ⟨q, db, ls⟩ :: tx.log, writes := tx.writes ++ ws }

@[simp] theorem takes_writes (tx : Tx R K W) (q : Stmt R K W) (db : Db R)
    (ws : List (Write R K)) (ls : List (Lock K)) :
    (tx.takes q db ws ls).writes = tx.writes ++ ws := rfl

@[simp] theorem takes_locks (tx : Tx R K W) (q : Stmt R K W) (db : Db R)
    (ws : List (Write R K)) (ls : List (Lock K)) :
    (tx.takes q db ws ls).locks = ls ++ tx.locks := rfl

@[simp] theorem locks_empty : ({} : Tx R K W).locks = [] := rfl

end Tx

namespace Session

/-- Note a statement, with its writes and the locks it took. -/
def takes (ses : Session R K W) (q : Stmt R K W) (db : Db R) (ws : List (Write R K))
    (ls : List (Lock K)) : Session R K W :=
  { ses with tx := ses.tx.takes q db ws ls }

/-- Note a statement that reads. -/
def reads (ses : Session R K W) (q : Stmt R K W) (db : Db R) : Session R K W :=
  ses.takes q db [] []

end Session

namespace Tx

variable [DecidableEq K]

/-- What the transaction sees: the committed rows under its own writes. -/
def view (tx : Tx R K W) (db : Db R) : Db R := applyAll tx.writes db

/-- The transaction has a lock on every row it is going to write: a full one for a
deletion, and one that keeps other writers out for the rest. -/
def Covered (tx : Tx R K W) : Prop :=
  ∀ w ∈ tx.writes, w.CoveredBy tx.locks

end Tx

/-- What the other sessions leave alone while one holds a lock: a row locked for writing
keeps its value, and no locked row goes away. -/
def Lock.Frame [DecidableEq K] (l : Lock K) (a b : Db R) : Prop :=
  (l.mode ≠ .keyShare → b.get l.key = a.get l.key) ∧
    ((a.get l.key).isSome → (b.get l.key).isSome)

theorem Lock.Frame.refl [DecidableEq K] (l : Lock K) (a : Db R) : l.Frame a a :=
  ⟨fun _ => rfl, fun h => h⟩

theorem Lock.Frame.trans [DecidableEq K] {l : Lock K} {a b c : Db R} (h : l.Frame a b)
    (h' : l.Frame b c) : l.Frame a c :=
  ⟨fun hm => (h'.1 hm).trans (h.1 hm), fun ha => h'.2 (h.2 ha)⟩

/-- What a statement finds around it. -/
structure Env (R K : Type) where
  /-- The locks of the other sessions. -/
  held : List (Lock K)
  /-- The rows the other sessions have inserted and not committed. -/
  inflight : List R
  /-- The clock. -/
  now : Time
  /-- When the transaction began. -/
  begunAt : Time
  /-- Resolves what the statement leaves open: the number that is drawn, and which
  row a `SELECT` for one row returns when several match. -/
  pick : Nat

/-- Why the database refuses a statement. -/
inductive SqlError where
  | uniqueViolation
  | foreignKeyViolation
  | outOfRange
  /-- A text has a NUL. -/
  | nulCharacter
  | tooManyParameters
  | cardinalityViolation
  /-- The connection was lost, or the session was chosen to break a deadlock. -/
  | aborted
  deriving DecidableEq

/-- What comes of a statement. -/
inductive Outcome (R K W : Type) [Schema R K W] (α : Type) where
  /-- It waits for a lock. -/
  | blocked
  | error (e : SqlError)
  | ok (res : α) (ses : Session R K W) (db : Db R)

variable [DecidableEq K]

namespace Env

/-- Some lock of another session stands against one of these. -/
def bars (env : Env R K) (need : List (Lock K)) : Bool :=
  need.any fun l => env.held.any fun h => l.conflicts h

/-- Some uncommitted row of another session stands against this one. -/
def pends (env : Env R K) (r : R) : Bool :=
  env.inflight.any fun x => decide (key x = key r) || clash x r

end Env

/-- The locks a row's foreign keys ask for. -/
def refLocks (ks : List K) : List (Lock K) := ks.map fun k => ⟨k, .keyShare⟩

/-- The rows of a store that satisfy a clause, in its order. -/
def matching (db : Db R) (w : W) : List R :=
  (db.rows.filter (holds w)).insertionSort (fun a b => before w a b = true)

/-- One of the rows of a list, `none` only when there is none. -/
def pickRow (pick : Nat) (rs : List R) : Option R := rs[pick % rs.length]?

/-- Some row of the store stands against this one. -/
def occupied (db : Db R) (r : R) : Bool :=
  db.rows.any fun x => decide (key x = key r) || clash x r

/-- The rows of the store that refer to the row under `k`. -/
def referring (db : Db R) (k : K) : List R :=
  db.rows.filter fun r => decide (k ∈ (refs r).map Prod.snd)

/-- The rows an `UPDATE` makes a row refer to: those of the foreign keys it sets. -/
def newRefs (old new : R) : List K :=
  ((refs new).filter fun x => x ∉ refs old).map Prod.snd

/-- The `ON DELETE` action on a row that refers to `k`. -/
def unrefWrite (k : K) (r : R) : Write R K :=
  match unref k r with
  | some r' => .update r r'
  | none => .delete (key r)

/-- The rows of an `INSERT … ON CONFLICT DO NOTHING` that go in. -/
def newRows (db : Db R) : List R → List R
  | [] => []
  | r :: rs => if occupied db r then newRows db rs else r :: newRows (db.insert r) rs

theorem mem_of_mem_newRows {db : Db R} {rs : List R} {r : R} (h : r ∈ newRows db rs) :
    r ∈ rs := by
  induction rs generalizing db with
  | nil => exact h
  | cons x xs ih =>
    rw [newRows] at h
    split at h
    · exact List.mem_cons_of_mem _ (ih h)
    · rcases List.mem_cons.1 h with rfl | h
      · exact List.mem_cons_self ..
      · exact List.mem_cons_of_mem _ (ih h)

/-- A row that goes in clashes with none of the store. -/
theorem clash_of_mem_newRows {db : Db R} {rs : List R} {x : R} (hx : x ∈ newRows db rs) :
    ∀ r ∈ db.rows, clash r x = false := by
  induction rs generalizing db with
  | nil => simp [newRows] at hx
  | cons y ys ih =>
    intro r hr
    rw [newRows] at hx
    split at hx
    · exact ih hx r hr
    · rename_i hocc
      rcases List.mem_cons.1 hx with rfl | hx
      · have hno : ¬ (key r = key x ∨ clash r x = true) := by
          intro h
          exact hocc (List.any_eq_true.2 ⟨r, hr, by simpa using h⟩)
        simpa using fun h => hno (Or.inr h)
      · refine ih hx r (Db.mem_of_get (k := key r) ?_)
        exact Db.get_insert_of_get (Db.get_of_mem hr)

/-- Of the rows that go in no two clash. -/
theorem pairwise_newRows (db : Db R) (rs : List R) :
    (newRows db rs).Pairwise fun a b => clash a b = false := by
  induction rs generalizing db with
  | nil => simp [newRows]
  | cons y ys ih =>
    rw [newRows]
    split
    · exact ih db
    · rename_i hocc
      have hnone : db.get (key y) = none := by
        rw [Db.get_eq_none_iff]
        intro r hr hk
        exact hocc (List.any_eq_true.2 ⟨r, hr, by simp [hk]⟩)
      refine List.pairwise_cons.2 ⟨fun x hx => ?_, ih _⟩
      refine clash_of_mem_newRows hx y (Db.mem_of_get (k := key y) ?_)
      rw [Db.get_insert_of_none hnone, if_pos rfl]

/-- The write of one row of an `INSERT … ON CONFLICT DO UPDATE`. -/
def upsertWrite (db : Db R) (r : R) : Write R K :=
  match db.get (key r) with
  | some old => .update old r
  | none => .insert r

/-- The locks of a list of inserted rows: their own, and those of their foreign keys. -/
def insertLocks (rs : List R) : List (Lock K) :=
  rs.flatMap fun r => ⟨key r, .update⟩ :: refLocks ((refs r).map Prod.snd)

/-- The locks of an update: its own row, and the rows of the foreign keys it sets. -/
def updateLocks (old new : R) : List (Lock K) :=
  ⟨key old, .noKeyUpdate⟩ :: refLocks (newRefs old new)

/-- The locks of a deletion: the row, and the rows the `ON DELETE` actions write. -/
def deleteLocks (db : Db R) (k : K) : List (Lock K) :=
  ⟨k, .update⟩ :: (referring db k).map fun r => ⟨key r, .update⟩

/-- Every foreign key of the list points at a row. -/
def present (db : Db R) (ks : List K) : Bool := ks.all fun k => (db.get k).isSome

/-- A text that can be stored has no NUL. -/
def plainText (t : List Char) : Bool := !t.contains '\x00'

theorem plainText_iff {t : List Char} : plainText t = true ↔ '\x00' ∉ t := by
  simp [plainText]

theorem plainText_append {s t : List Char} (hs : plainText s = true) (ht : plainText t = true) :
    plainText (s ++ t) = true := by
  rw [plainText_iff] at hs ht ⊢
  simp [hs, ht]

theorem plainText_take {t : List Char} (n : Nat) (h : plainText t = true) :
    plainText (t.take n) = true := by
  rw [plainText_iff] at h ⊢
  exact fun hmem => h (List.mem_of_mem_take hmem)

/-- The numbers of the row fit their columns, and its texts can be stored. -/
def storable (r : R) : Bool := fits r && (texts r).all plainText

/-- An `UPDATE` sends the texts that it changes. -/
def storableOver (old new : R) : Bool :=
  fits new && (texts new).all fun t => (texts old).contains t || plainText t

omit [DecidableEq K] in
theorem storableOver_of_texts {old new : R} (hfits : fits new = true)
    (htexts : texts new = texts old) : storableOver old new = true := by
  rw [storableOver, hfits, htexts, Bool.true_and]
  exact List.all_eq_true.2 fun t ht => by simp [ht]

/-- The driver numbers the parameters of a statement with 16 bits and a sign. -/
def maxParameters : Nat := 32767

/-- How many parameters the rows take in one `INSERT`. -/
def parametersOf : List R → Nat
  | [] => 0
  | r :: rs => parameters r + parametersOf rs

omit [DecidableEq K] in
theorem parametersOf_eq {rs : List R} {n : Nat} (h : ∀ r ∈ rs, parameters r = n) :
    parametersOf rs = n * rs.length := by
  induction rs with
  | nil => rfl
  | cons r rs ih =>
    obtain ⟨hr, hrs⟩ := List.forall_mem_cons.1 h
    rw [parametersOf, hr, ih hrs, List.length_cons, Nat.mul_succ, Nat.add_comm]

/-- The rows can be stored, and go into one statement. -/
def sendable (rs : List R) : Bool :=
  rs.all storable && decide (parametersOf rs ≤ maxParameters)

/-- Why rows are refused that cannot be stored or sent. -/
def complaint (rs : List R) : SqlError :=
  if rs.all fits = false then .outOfRange
  else if rs.all (fun r => (texts r).all plainText) = false then .nulCharacter
  else .tooManyParameters

/-- The meaning of one statement of a session. -/
def exec (env : Env R K) (db : Db R) (ses : Session R K W) :
    (q : Stmt R K W) → Outcome R K W q.Res
  | .now => .ok env.now ses db
  | .random => .ok env.pick ses db
  | .txTime => .ok env.begunAt ses db
  | .select w => .ok (pickRow env.pick (matching (ses.tx.view db) w)) (ses.reads (.select w) db) db
  | .selectAll w => .ok (matching (ses.tx.view db) w) (ses.reads (.selectAll w) db) db
  | .tryLock w k =>
    if env.bars [⟨k, .update⟩] then .ok none (ses.reads (.tryLock w k) db) db
    else
      match (ses.tx.view db).get k with
      | none => .ok none (ses.reads (.tryLock w k) db) db
      | some r =>
        if holds w r then .ok (some r) (ses.takes (.tryLock w k) db [] [⟨k, .update⟩]) db
        else .ok none (ses.reads (.tryLock w k) db) db
  | .insert r =>
    if storable r = false then .error (complaint [r])
    else if occupied (ses.tx.view db) r then .error .uniqueViolation
    else if env.pends r || env.bars (insertLocks [r]) then .blocked
    else if present (ses.tx.view db) ((refs r).map Prod.snd) = false then
      .error .foreignKeyViolation
    else .ok () (ses.takes (.insert r) db [.insert r] (insertLocks [r])) db
  | .insertNew rs =>
    let new := newRows (ses.tx.view db) rs
    if sendable rs = false then .error (complaint rs)
    else if new.any env.pends || env.bars (insertLocks new) then .blocked
    else if new.all (fun r => present (ses.tx.view db) ((refs r).map Prod.snd)) = false then
      .error .foreignKeyViolation
    else .ok new.length (ses.takes (.insertNew rs) db (new.map .insert) (insertLocks new)) db
  | .upsert rs =>
    if sendable rs = false then .error (complaint rs)
    else if (rs.map (key (R := R))).Nodup then
      if rs.any env.pends || env.bars (insertLocks rs) then .blocked
      else if rs.all (fun r => present (ses.tx.view db) ((refs r).map Prod.snd)) = false then
        .error .foreignKeyViolation
      else
        .ok () (ses.takes (.upsert rs) db (rs.map (upsertWrite (ses.tx.view db)))
          (insertLocks rs)) db
    else .error .cardinalityViolation
  | .update old new =>
    match (ses.tx.view db).get (key old) with
    | none => .ok false (ses.reads (.update old new) db) db
    | some _ =>
      if storableOver old new = false then .error (complaint [new])
      else if env.bars (updateLocks old new) then .blocked
      else if present (ses.tx.view db) (newRefs old new) = false then
        .error .foreignKeyViolation
      else .ok true (ses.takes (.update old new) db [.update old new] (updateLocks old new)) db
  | .delete k =>
    match (ses.tx.view db).get k with
    | none => .ok false (ses.reads (.delete k) db) db
    | some _ =>
      if env.bars (deleteLocks (ses.tx.view db) k) then .blocked
      else
        .ok true (ses.takes (.delete k) db
          ((referring (ses.tx.view db) k).map (unrefWrite k) ++ [.delete k])
          (deleteLocks (ses.tx.view db) k)) db
  | .commit => .ok () ses.committed (ses.tx.view db)
  | .rollback => .ok () ses.reset db

/-- What a program answers that runs while nobody else commits: `none` where a statement
of it waits or is refused. -/
def Prog.answer (env : Env R K) : Prog R K W ε α → Db R → Session R K W → Option (Except ε α)
  | .ret a, _, _ => some (.ok a)
  | .throw e, _, _ => some (.error e)
  | .stmt q k, db, ses =>
    match ReadCommitted.exec env db ses q with
    | .ok r ses db => (k r).answer env db ses
    | _ => none

/-! ## What a statement leaves behind -/

omit [Schema R K W] in
theorem bars_eq_false_iff {env : Env R K} {ls : List (Lock K)} :
    env.bars ls = false ↔ ∀ l ∈ ls, ∀ h ∈ env.held, l.conflicts h = false := by
  simp [Env.bars, List.any_eq_false]

/-- A session after a statement that did not end its transaction: unchanged, or with
more writes, under locks that nobody else's locks stand against. -/
inductive Grows (env : Env R K) (db : Db R) (ses : Session R K W) (q : Stmt R K W) :
    Session R K W → Prop
  | same : Grows env db ses q ses
  | takes {ws : List (Write R K)} {ls : List (Lock K)} : env.bars ls = false →
      (∀ w ∈ ws, w.CoveredBy ls) → Grows env db ses q (ses.takes q db ws ls)

theorem Grows.reads {env : Env R K} {db : Db R} {ses : Session R K W} {q : Stmt R K W} :
    Grows env db ses q (ses.reads q db) :=
  Grows.takes rfl (by simp)

omit [DecidableEq K] in
/-- The lock of an inserted row covers any write of that row. -/
theorem insertLocks_covers {rs : List R} {r : R} (hr : r ∈ rs) {w : Write R K}
    (hw : w.target = key r) : w.CoveredBy (insertLocks rs) := by
  refine ⟨⟨key r, .update⟩, List.mem_flatMap.2 ⟨r, hr, List.mem_cons_self ..⟩, hw.symm, ?_, ?_⟩
  · simp
  · simp

omit [DecidableEq K] in
theorem target_unrefWrite (k : K) (r : R) : (unrefWrite k r).target = key r := by
  unfold unrefWrite
  cases unref k r <;> rfl

theorem target_upsertWrite (db : Db R) (r : R) : (upsertWrite db r).target = key r := by
  unfold upsertWrite
  cases h : db.get (key r) with
  | none => rfl
  | some old => exact Db.key_of_get h

/-- **What an `INSERT … ON CONFLICT DO UPDATE` leaves under a key**: the row of the statement
with that key, or what was there.  No two rows of the statement have one key. -/
theorem get_upserts {view : Db R} {rs : List R} (hnd : (rs.map (key (R := R))).Nodup)
    (hmerge : ∀ r ∈ rs, ∀ old, view.get (key r) = some old → merge old r old = r) (k : K) :
    (applyAll (rs.map (upsertWrite view)) view).get k =
      (rs.find? fun r => decide (key r = k)).or (view.get k) := by
  rw [get_applyAll]
  cases hf : rs.find? fun r => decide (key r = k) with
  | none =>
    rw [List.find?_eq_none] at hf
    refine foldl_on_of_ne (fun w hw ht => ?_) _
    obtain ⟨r, hr, rfl⟩ := List.mem_map.1 hw
    rw [target_upsertWrite] at ht
    exact hf r hr (by simpa using ht)
  | some r =>
    have hk : key r = k := by simpa using List.find?_some hf
    have hr : r ∈ rs := List.mem_of_find?_eq_some hf
    have htargets : ((rs.map (upsertWrite view)).map Write.target).Nodup := by
      rw [List.map_map, show Write.target ∘ upsertWrite view = (key : R → K) from
        funext fun r => target_upsertWrite view r]
      exact hnd
    have hfold := foldl_on_of_mem htargets (List.mem_map_of_mem hr) (view.get k)
    rw [target_upsertWrite, hk] at hfold
    rw [hfold, upsertWrite, hk]
    cases hg : view.get k with
    | none => exact Write.on_insert_of_none hk
    | some old =>
      rw [Write.on_update_of_some (Db.key_of_get hg)]
      exact congrArg some (hmerge r hr old (by rw [hk, hg]))

theorem deleteLocks_covers {db : Db R} {k : K} :
    ∀ w ∈ (referring db k).map (unrefWrite k) ++ [.delete k], w.CoveredBy (deleteLocks db k) := by
  intro w hw
  rcases List.mem_append.1 hw with hw | hw
  · obtain ⟨r, hr, rfl⟩ := List.mem_map.1 hw
    exact ⟨⟨key r, .update⟩, List.mem_cons_of_mem _ (List.mem_map.2 ⟨r, hr, rfl⟩),
      (target_unrefWrite k r).symm, by simp, by simp⟩
  · rw [List.mem_singleton] at hw
    subst hw
    exact ⟨⟨k, .update⟩, List.mem_cons_self .., rfl, by simp, by simp⟩

/-- **What a statement that goes through can do.**  It leaves the store alone and
notes itself in the transaction, or it ends the transaction. -/
theorem exec_cases {env : Env R K} {db db' : Db R} {ses ses' : Session R K W}
    {q : Stmt R K W} {r : q.Res} (h : exec env db ses q = .ok r ses' db') :
    (q ≠ .commit ∧ db' = db ∧ Grows env db ses q ses') ∨
    (q = .rollback ∧ db' = db ∧ ses' = ses.reset) ∨
    (q = .commit ∧ db' = ses.tx.view db ∧ ses' = ses.committed) := by
  cases q with
  | now => cases h; exact Or.inl ⟨by simp, rfl, Grows.same⟩
  | random => cases h; exact Or.inl ⟨by simp, rfl, Grows.same⟩
  | txTime => cases h; exact Or.inl ⟨by simp, rfl, Grows.same⟩
  | select w => cases h; exact Or.inl ⟨by simp, rfl, Grows.reads⟩
  | selectAll w => cases h; exact Or.inl ⟨by simp, rfl, Grows.reads⟩
  | tryLock w k =>
    refine Or.inl ⟨by simp, ?_⟩
    simp only [exec] at h
    split at h
    · cases h; exact ⟨rfl, Grows.reads⟩
    · rename_i hb
      split at h
      · cases h; exact ⟨rfl, Grows.reads⟩
      · split at h
        · cases h; exact ⟨rfl, Grows.takes (by simpa using hb) (by simp)⟩
        · cases h; exact ⟨rfl, Grows.reads⟩
  | insert r =>
    refine Or.inl ⟨by simp, ?_⟩
    simp only [exec] at h
    split at h <;> try cases h
    split at h <;> try cases h
    split at h <;> try cases h
    split at h <;> cases h
    rename_i hb _
    simp only [Bool.or_eq_true, not_or, Bool.not_eq_true] at hb
    refine ⟨rfl, Grows.takes hb.2 fun w hw => ?_⟩
    rw [List.mem_singleton] at hw
    exact insertLocks_covers (List.mem_singleton_self _) (by rw [hw]; rfl)
  | insertNew rs =>
    refine Or.inl ⟨by simp, ?_⟩
    simp only [exec] at h
    split at h <;> try cases h
    split at h <;> try cases h
    split at h <;> cases h
    rename_i hb _
    simp only [Bool.or_eq_true, not_or, Bool.not_eq_true] at hb
    refine ⟨rfl, Grows.takes hb.2 fun w hw => ?_⟩
    obtain ⟨r, hr, rfl⟩ := List.mem_map.1 hw
    exact insertLocks_covers hr rfl
  | upsert rs =>
    refine Or.inl ⟨by simp, ?_⟩
    simp only [exec] at h
    split at h <;> try cases h
    split at h <;> try cases h
    split at h <;> try cases h
    split at h <;> cases h
    rename_i hb _
    simp only [Bool.or_eq_true, not_or, Bool.not_eq_true] at hb
    refine ⟨rfl, Grows.takes hb.2 fun w hw => ?_⟩
    obtain ⟨r, hr, rfl⟩ := List.mem_map.1 hw
    exact insertLocks_covers hr (target_upsertWrite _ r)
  | update old new =>
    refine Or.inl ⟨by simp, ?_⟩
    simp only [exec] at h
    split at h
    · cases h; exact ⟨rfl, Grows.reads⟩
    · split at h <;> try cases h
      split at h <;> try cases h
      split at h <;> cases h
      rename_i hb _
      refine ⟨rfl, Grows.takes (by simpa using hb) fun w hw => ?_⟩
      rw [List.mem_singleton] at hw
      subst hw
      exact ⟨⟨key old, .noKeyUpdate⟩, List.mem_cons_self .., rfl, by simp, by simp⟩
  | delete k =>
    refine Or.inl ⟨by simp, ?_⟩
    simp only [exec] at h
    split at h
    · cases h; exact ⟨rfl, Grows.reads⟩
    · split at h <;> cases h
      rename_i hb
      exact ⟨rfl, Grows.takes (by simpa using hb) deleteLocks_covers⟩
  | commit => cases h; exact Or.inr (Or.inr ⟨rfl, rfl, rfl⟩)
  | rollback => cases h; exact Or.inr (Or.inl ⟨rfl, rfl, rfl⟩)

omit [DecidableEq K] in
theorem covered_empty : ({} : Tx R K W).Covered := fun w hw => by simp at hw

/-- A session stays covered, whatever it does. -/
theorem exec_covered {env : Env R K} {db db' : Db R} {ses ses' : Session R K W}
    {q : Stmt R K W} {r : q.Res} (h : exec env db ses q = .ok r ses' db')
    (hc : ses.tx.Covered) : ses'.tx.Covered := by
  rcases exec_cases h with ⟨-, -, hg⟩ | ⟨-, -, rfl⟩ | ⟨-, -, rfl⟩
  · cases hg with
    | same => exact hc
    | takes hf hcov =>
      intro w hw
      rcases List.mem_append.1 hw with hw | hw
      · obtain ⟨l, hl, h⟩ := hc w hw
        exact ⟨l, List.mem_append_right _ hl, h⟩
      · obtain ⟨l, hl, h⟩ := hcov w hw
        exact ⟨l, List.mem_append_left _ hl, h⟩
  · exact covered_empty
  · exact covered_empty

/-- No statement takes a lock that another session's lock stands against. -/
theorem exec_locks {env : Env R K} {db db' : Db R} {ses ses' : Session R K W}
    {q : Stmt R K W} {r : q.Res} (h : exec env db ses q = .ok r ses' db') :
    ∀ l ∈ ses'.tx.locks, l ∈ ses.tx.locks ∨ ∀ h ∈ env.held, l.conflicts h = false := by
  intro l hl
  rcases exec_cases h with ⟨-, -, hg⟩ | ⟨-, -, rfl⟩ | ⟨-, -, rfl⟩
  · cases hg with
    | same => exact Or.inl hl
    | takes hf hcov =>
      rcases List.mem_append.1 hl with hl | hl
      · exact Or.inr (bars_eq_false_iff.1 hf l hl)
      · exact Or.inl hl
  · simp at hl
  · simp at hl

/-- A statement notes itself with the store it was executed on, and nothing else. -/
theorem exec_log {env : Env R K} {db db' : Db R} {ses ses' : Session R K W}
    {q : Stmt R K W} {r : q.Res} (h : exec env db ses q = .ok r ses' db') :
    ∀ e ∈ ses'.tx.log, e ∈ ses.tx.log ∨ (e.db = db ∧ db' = db) := by
  intro e he
  rcases exec_cases h with ⟨-, hdb, hg⟩ | ⟨-, -, rfl⟩ | ⟨-, -, rfl⟩
  · cases hg with
    | same => exact Or.inl he
    | takes hf hcov =>
      rcases List.mem_cons.1 he with rfl | he
      · exact Or.inr ⟨rfl, hdb⟩
      · exact Or.inl he
  · simp at he
  · simp at he

omit [DecidableEq K] in
theorem fits_of_storable {r : R} (h : storable r = true) : fits r = true :=
  (Bool.and_eq_true_iff.1 h).1

omit [DecidableEq K] in
theorem storable_of_sendable {rs : List R} (h : sendable rs = true) {r : R} (hr : r ∈ rs) :
    storable r = true :=
  List.all_eq_true.1 (Bool.and_eq_true_iff.1 h).1 r hr

/-- The writes of a statement that goes through, on what its transaction sees.  The rows it
brings fit their columns. -/
inductive Stmt.Issues (view : Db R) : Stmt R K W → Write R K → Prop
  | insert {r : R} : fits r = true → Issues view (.insert r) (.insert r)
  | insertNew {rs : List R} {r : R} : r ∈ newRows view rs → fits r = true →
      Issues view (.insertNew rs) (.insert r)
  | upsert {rs : List R} {r : R} : r ∈ rs → fits r = true →
      Issues view (.upsert rs) (upsertWrite view r)
  | update {old new : R} : fits new = true → Issues view (.update old new) (.update old new)
  | unref {k : K} {r : R} : r ∈ referring view k → Issues view (.delete k) (unrefWrite k r)
  | delete {k : K} : Issues view (.delete k) (.delete k)

/-- A session has the writes it had and those of the statement. -/
theorem exec_issues {env : Env R K} {db db' : Db R} {ses ses' : Session R K W}
    {q : Stmt R K W} {x : q.Res} (h : exec env db ses q = .ok x ses' db') {w : Write R K}
    (hw : w ∈ ses'.tx.writes) : w ∈ ses.tx.writes ∨ q.Issues (ses.tx.view db) w := by
  have hadds : ∀ {p : Stmt R K W} {ws : List (Write R K)} {ls : List (Lock K)},
      (w ∈ ws → q.Issues (ses.tx.view db) w) → w ∈ (ses.takes p db ws ls).tx.writes →
      w ∈ ses.tx.writes ∨ q.Issues (ses.tx.view db) w := by
    intro p ws ls hws hmem
    rw [Session.takes, Tx.takes_writes, List.mem_append] at hmem
    exact hmem.imp id hws
  have hreads : ∀ {p : Stmt R K W} {ls : List (Lock K)},
      w ∈ (ses.takes p db [] ls).tx.writes →
      w ∈ ses.tx.writes ∨ q.Issues (ses.tx.view db) w := hadds (by simp)
  cases q with
  | now => cases h; exact Or.inl hw
  | random => cases h; exact Or.inl hw
  | txTime => cases h; exact Or.inl hw
  | select c => cases h; exact hreads hw
  | selectAll c => cases h; exact hreads hw
  | tryLock c k =>
    simp only [exec] at h
    split at h
    · cases h; exact hreads hw
    · split at h
      · cases h; exact hreads hw
      · split at h <;> cases h
        · exact hreads hw
        · exact hreads hw
  | insert r =>
    simp only [exec] at h
    split at h <;> try cases h
    rename_i hfits
    split at h <;> try cases h
    split at h <;> try cases h
    split at h <;> cases h
    refine hadds (fun hmem => ?_) hw
    rw [List.mem_singleton.1 hmem]
    exact .insert (fits_of_storable (by simpa using hfits))
  | insertNew rs =>
    simp only [exec] at h
    split at h <;> try cases h
    rename_i hfits
    split at h <;> try cases h
    split at h <;> cases h
    refine hadds (fun hmem => ?_) hw
    obtain ⟨r, hr, rfl⟩ := List.mem_map.1 hmem
    have hsend : sendable rs = true := by simpa using hfits
    exact .insertNew hr (fits_of_storable (storable_of_sendable hsend (mem_of_mem_newRows hr)))
  | upsert rs =>
    simp only [exec] at h
    split at h <;> try cases h
    rename_i hfits
    split at h <;> try cases h
    split at h <;> try cases h
    split at h <;> cases h
    refine hadds (fun hmem => ?_) hw
    obtain ⟨r, hr, rfl⟩ := List.mem_map.1 hmem
    have hsend : sendable rs = true := by simpa using hfits
    exact .upsert hr (fits_of_storable (storable_of_sendable hsend hr))
  | update old new =>
    simp only [exec] at h
    split at h
    · cases h; exact hreads hw
    · split at h <;> try cases h
      rename_i hfits
      split at h <;> try cases h
      split at h <;> cases h
      refine hadds (fun hmem => ?_) hw
      rw [List.mem_singleton.1 hmem]
      exact .update (Bool.and_eq_true_iff.1 (by simpa using hfits : storableOver old new = true)).1
  | delete k =>
    simp only [exec] at h
    split at h
    · cases h; exact hreads hw
    · split at h <;> cases h
      refine hadds (fun hmem => ?_) hw
      rcases List.mem_append.1 hmem with hmem | hmem
      · obtain ⟨r, hr, rfl⟩ := List.mem_map.1 hmem
        exact .unref hr
      · rw [List.mem_singleton.1 hmem]
        exact .delete
  | commit => cases h; simp at hw
  | rollback => cases h; simp at hw

/-- **A commit respects the locks of the others.**  A transaction that has locked what
it writes leaves alone every row on which another one holds a lock that its own do not
stand against. -/
theorem frame_of_covered {tx other : Tx R K W} (hc : tx.Covered)
    (hfree : ∀ l ∈ tx.locks, ∀ h ∈ other.locks, l.conflicts h = false) (db : Db R) :
    ∀ h ∈ other.locks, h.Frame db (tx.view db) := by
  intro h hh
  have hne : ∀ w ∈ tx.writes, w.target = h.key →
      h.mode = .keyShare ∧ ∀ k, w ≠ .delete k := by
    intro w hw ht
    obtain ⟨l, hl, hk, hm, hd⟩ := hc w hw
    have hconf : l.mode.conflicts h.mode = false := by
      have := hfree l hl h hh
      simpa [Lock.conflicts, hk, ht] using this
    refine ⟨?_, ?_⟩
    · by_contra hs
      rw [LockMode.conflicts_of_ne_keyShare hm hs] at hconf
      exact Bool.noConfusion hconf
    · intro k hk'
      rw [hd k hk'] at hconf
      exact Bool.noConfusion hconf
  refine ⟨fun hs => ?_, fun hk => ?_⟩
  · exact get_applyAll_of_not_target (fun w hw ht => hs (hne w hw ht).1) db
  · exact isSome_get_applyAll (fun hw => (hne _ hw rfl).2 _ rfl) hk

end ReadCommitted
