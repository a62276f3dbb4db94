import GpuNetwork.Store.Interleave

/-!
# Reasoning about handlers one at a time

What a request can commit is found out from its program alone.  A `Spec` says what a
transaction looks like when it commits (`shape`) and what an answer stands for (`post`);
a run may promise every request in flight something about the commits of the others
(`rely`).  `Spec.Wp` executes a program symbolically, against any store at each of its
statements.

* `Tx.Read`, `Tx.Missed`, `Tx.Locked`, `Tx.Fresh`, `Tx.Found` — what an open transaction
  has found out.
* `Spec.Wp`, `wp_bind`, `wp_select`, … — the rules; `wp_of_reads` for programs that only
  read.
* `Spec.Safe`, `Spec.Valid` — the obligations on a handler and on a server.
-/

namespace ReadCommitted

open Relation Schema

variable {R K W Req ε α β : Type} [Schema R K W] [DecidableEq K]

/-! ## What an open transaction has found out -/

namespace Tx

/-- It has read the row. -/
def Read (tx : Tx R K W) (w : W) (r : R) : Prop :=
  ∃ e ∈ tx.log, e.stmt = .select w ∧ e.db.get (key r) = some r ∧ holds w r = true

/-- It has looked for a row and found none. -/
def Missed (tx : Tx R K W) (w : W) : Prop :=
  ∃ e ∈ tx.log, e.stmt = .select w ∧ ∀ k r, e.db.get k = some r → holds w r = false

/-- It has locked the newest version of the row. -/
def Locked (tx : Tx R K W) (w : W) (r : R) : Prop :=
  ∃ e ∈ tx.log, e.db.get (key r) = some r ∧ holds w r = true ∧ ⟨key r, .update⟩ ∈ e.locks

/-- It has inserted a row under a key that was free. -/
def Fresh (tx : Tx R K W) (k : K) : Prop :=
  ∃ e ∈ tx.log, e.db.get k = none ∧ ⟨k, .update⟩ ∈ e.locks

/-- It has locked a row that was there. -/
def Found (tx : Tx R K W) (k : K) : Prop :=
  ∃ e ∈ tx.log, (e.db.get k).isSome ∧ ∃ m, ⟨k, m⟩ ∈ e.locks

section

variable {tx tx' : Tx R K W} {w : W} {r : R} {k : K}

theorem Read.mono (hlog : ∀ e ∈ tx.log, e ∈ tx'.log) (h : tx.Read w r) : tx'.Read w r := by
  obtain ⟨e, he, h⟩ := h
  exact ⟨e, hlog e he, h⟩

theorem Missed.mono (hlog : ∀ e ∈ tx.log, e ∈ tx'.log) (h : tx.Missed w) : tx'.Missed w := by
  obtain ⟨e, he, h⟩ := h
  exact ⟨e, hlog e he, h⟩

theorem Locked.mono (hlog : ∀ e ∈ tx.log, e ∈ tx'.log) (h : tx.Locked w r) :
    tx'.Locked w r := by
  obtain ⟨e, he, h⟩ := h
  exact ⟨e, hlog e he, h⟩

theorem Fresh.mono (hlog : ∀ e ∈ tx.log, e ∈ tx'.log) (h : tx.Fresh k) : tx'.Fresh k := by
  obtain ⟨e, he, h⟩ := h
  exact ⟨e, hlog e he, h⟩

theorem Found.mono (hlog : ∀ e ∈ tx.log, e ∈ tx'.log) (h : tx.Found k) : tx'.Found k := by
  obtain ⟨e, he, h⟩ := h
  exact ⟨e, hlog e he, h⟩

/-- A row whose key the transaction does not write is seen as it is committed. -/
theorem view_get (h : ∀ w ∈ tx.writes, w.target ≠ k) (db : Db R) :
    (tx.view db).get k = db.get k :=
  get_applyAll_of_not_target h db

theorem view_of_no_writes (h : tx.writes = []) (db : Db R) : tx.view db = db := by
  rw [view, h, applyAll_nil]

end

end Tx

/-- `ses'` is what `ses` becomes in the course of a transaction by which it writes `ws`. -/
structure Session.Adds (ses ses' : Session R K W) (ws : List (Write R K)) : Prop where
  past : ses'.past = ses.past
  writes : ses'.tx.writes = ses.tx.writes ++ ws
  log : ∀ e ∈ ses.tx.log, e ∈ ses'.tx.log

namespace Session

variable {ses ses' ses'' : Session R K W} {ws vs : List (Write R K)}

omit [DecidableEq K]

theorem Adds.refl : ses.Adds ses [] := ⟨rfl, (List.append_nil _).symm, fun _ h => h⟩

theorem Adds.trans (h : ses.Adds ses' ws) (h' : ses'.Adds ses'' vs) :
    ses.Adds ses'' (ws ++ vs) :=
  ⟨h'.past.trans h.past, by rw [h'.writes, h.writes, List.append_assoc],
    fun e he => h'.log e (h.log e he)⟩

/-- A session that has only read since. -/
theorem Adds.then_reads (h : ses.Adds ses' ws) (h' : ses'.Adds ses'' []) : ses.Adds ses'' ws := by
  simpa using h.trans h'

theorem adds_takes (q : Stmt R K W) (db : Db R) (ws : List (Write R K)) (ls : List (Lock K)) :
    ses.Adds (ses.takes q db ws ls) ws :=
  ⟨rfl, rfl, fun _ he => List.mem_cons_of_mem _ he⟩

end Session

/-! ## Specifications -/

/-- A specification of a server under interleaving. -/
structure Spec (R K W Req ε α : Type) [Schema R K W] where
  /-- What a request in flight can count on about a commit of another. -/
  rely : Req → Tx R K W → Db R → Db R → Prop := fun _ _ _ _ => True
  /-- The database may refuse statements. -/
  refusals : Prop := True
  /-- What a transaction looks like when it commits. -/
  shape : Req → Tx R K W → Prop
  /-- What an answer stands for, given the transactions the request has committed. -/
  post : Req → Except ε α → List (Tx R K W) → Prop

namespace Spec

variable {P : Spec R K W Req ε α} {S : Server R K W Req ε α} {req : Req}

/-- What a transaction that has noted `e` could count on about any number of commits. -/
def Drift (P : Spec R K W Req ε α) (req : Req) (e : Entry R K W) : Db R → Db R → Prop :=
  ReflTransGen fun a b => ∃ tx : Tx R K W, e ∈ tx.log ∧ P.rely req tx a b

/-- How the store an open transaction finds compares to the stores its statements were
executed on: what it locked is as it was, and the rest has drifted. -/
structure Since (P : Spec R K W Req ε α) (req : Req) (tx : Tx R K W) (db : Db R) : Prop where
  frame : ∀ e ∈ tx.log, ∀ l ∈ e.locks, l.Frame e.db db
  drift : ∀ e ∈ tx.log, P.Drift req e e.db db

/-- Whatever the program finds in the store, its commits have their shape, the errors it
raises stand for what they should, and the values it returns satisfy `Q`. -/
def Wp (P : Spec R K W Req ε α) (req : Req) :
    Prog R K W ε β → Session R K W → (β → Session R K W → Prop) → Prop
  | .ret b, ses, Q => Q b ses
  | .throw e, ses, _ => P.post req (.error e) ses.past
  | .stmt q k, ses, Q =>
    ∀ (env : Env R K) (db : Db R), P.Since req ses.tx db →
      match exec env db ses q with
      | .blocked => True
      | .error _ => True
      | .ok r ses' _ => (q = .commit → P.shape req ses.tx) ∧ P.Wp req (k r) ses' Q

/-- The obligation on a handler. -/
def Safe (P : Spec R K W Req ε α) (req : Req) (x : Prog R K W ε α) (ses : Session R K W) : Prop :=
  P.Wp req x ses fun a ses' => P.post req (.ok a) ses'.past

/-- The obligations on a server. -/
structure Valid (P : Spec R K W Req ε α) (S : Server R K W Req ε α) : Prop where
  handle : ∀ req, P.Safe req (S.handle req) {}
  refused : P.refusals → ∀ req e past, P.post req (.error (S.sqlError e)) past

/-! ## The rules -/

section Rules

variable {ses : Session R K W} {Q : β → Session R K W → Prop}

@[simp] theorem wp_ret {b : β} : P.Wp req (.ret b) ses Q ↔ Q b ses := Iff.rfl

@[simp] theorem wp_throw {e : ε} :
    P.Wp req (.throw e : Prog R K W ε β) ses Q ↔ P.post req (.error e) ses.past := Iff.rfl

theorem wp_bind {γ : Type} {x : Prog R K W ε γ} {f : γ → Prog R K W ε β}
    (h : P.Wp req x ses fun c ses' => P.Wp req (f c) ses' Q) : P.Wp req (x >>= f) ses Q := by
  induction x generalizing ses with
  | ret c => exact h
  | throw e => exact h
  | stmt q k ih =>
    intro env db hsince
    have hs := h env db hsince
    revert hs
    cases exec env db ses q with
    | blocked => exact fun _ => trivial
    | error e => exact fun _ => trivial
    | ok r ses' db' => exact fun hs => ⟨hs.1, ih r hs.2⟩

theorem wp_mono {Q' : β → Session R K W → Prop} (hQ : ∀ b ses', Q b ses' → Q' b ses')
    {x : Prog R K W ε β} (h : P.Wp req x ses Q) : P.Wp req x ses Q' := by
  induction x generalizing ses with
  | ret b => exact hQ b ses h
  | throw e => exact h
  | stmt q k ih =>
    intro env db hsince
    have hs := h env db hsince
    revert hs
    cases exec env db ses q with
    | blocked => exact fun _ => trivial
    | error e => exact fun _ => trivial
    | ok r ses' db' => exact fun hs => ⟨hs.1, ih r hs.2⟩

/-- A program that only reads has nothing to show but its answer. -/
theorem wp_of_reads {x : Prog R K W ε β} (hx : x.Emits fun q => q.reads = true)
    (herr : ∀ e past, P.post req (.error e) past) (hQ : ∀ b ses', Q b ses') :
    P.Wp req x ses Q := by
  induction x generalizing ses with
  | ret b => exact hQ b ses
  | throw e => exact herr e _
  | stmt q k ih =>
    obtain ⟨hq, hk⟩ := hx
    intro env db _
    cases exec env db ses q with
    | blocked => trivial
    | error e => trivial
    | ok r ses' db' =>
      refine ⟨fun he => ?_, ih r (hk r)⟩
      rw [he] at hq
      cases hq

/-- A program is safe whatever it does, where nothing is asked of it. -/
theorem wp_of_trivial {x : Prog R K W ε β} (hshape : ∀ tx, P.shape req tx)
    (herr : ∀ e past, P.post req (.error e) past) (hQ : ∀ b ses', Q b ses') :
    P.Wp req x ses Q := by
  induction x generalizing ses with
  | ret b => exact hQ b ses
  | throw e => exact herr e _
  | stmt q k ih =>
    intro env db _
    cases exec env db ses q with
    | blocked => trivial
    | error e => trivial
    | ok r ses' db' => exact ⟨fun _ => hshape _, ih r⟩

theorem wp_now {k : Time → Prog R K W ε β} (h : ∀ t, P.Wp req (k t) ses Q) :
    P.Wp req (.stmt .now k) ses Q :=
  fun _ _ _ => ⟨fun he => (by cases he), h _⟩

theorem wp_random {k : Nat → Prog R K W ε β} (h : ∀ n, P.Wp req (k n) ses Q) :
    P.Wp req (.stmt .random k) ses Q :=
  fun _ _ _ => ⟨fun he => (by cases he), h _⟩

theorem wp_txTime {k : Time → Prog R K W ε β} (h : ∀ t, P.Wp req (k t) ses Q) :
    P.Wp req (.stmt .txTime k) ses Q :=
  fun _ _ _ => ⟨fun he => (by cases he), h _⟩

theorem wp_commit {k : Unit → Prog R K W ε β} (hs : P.shape req ses.tx)
    (h : P.Wp req (k ()) ses.committed Q) : P.Wp req (.stmt .commit k) ses Q :=
  fun _ _ _ => ⟨fun _ => hs, h⟩

theorem wp_rollback {k : Unit → Prog R K W ε β} (h : P.Wp req (k ()) ses.reset Q) :
    P.Wp req (.stmt .rollback k) ses Q :=
  fun _ _ _ => ⟨fun he => (by cases he), h⟩

theorem pickRow_cases (pick : Nat) (rs : List R) :
    (pickRow pick rs = none ∧ rs = []) ∨ ∃ r ∈ rs, pickRow pick rs = some r := by
  by_cases hrs : rs = []
  · subst hrs; exact Or.inl ⟨rfl, rfl⟩
  · have hlt : pick % rs.length < rs.length := Nat.mod_lt _ (List.length_pos_of_ne_nil hrs)
    exact Or.inr ⟨rs[pick % rs.length], List.getElem_mem hlt, List.getElem?_eq_getElem hlt⟩

omit [DecidableEq K] in
theorem mem_matching {db : Db R} {w : W} {r : R} :
    r ∈ matching db w ↔ r ∈ db.rows ∧ holds w r = true := by
  rw [matching, List.mem_insertionSort, List.mem_filter]

omit [DecidableEq K] in
/-- The rows of a clause come in the order of a column that tells them apart. -/
theorem pairwise_matching {κ : Type} [LinearOrder κ] (column : R → κ) (db : Db R) {w : W}
    (hbefore : ∀ a b, holds w a = true → holds w b = true →
      (before w a b = true ↔ column b ≤ column a))
    (hinj : ∀ a b, a ∈ matching db w → b ∈ matching db w → column a = column b → a = b) :
    (matching db w).Pairwise fun a b => column b < column a := by
  have hsorted : (matching db w).Pairwise fun a b => column b ≤ column a := by
    have hmap := List.map_insertionSort (fun a b => before w a b = true)
      (fun a b : R => column b ≤ column a) id (db.rows.filter (holds w)) fun a ha b hb =>
        hbefore a b (List.mem_filter.1 ha).2 (List.mem_filter.1 hb).2
    rw [List.map_id, List.map_id] at hmap
    have htotal : Std.Total fun a b : R => column b ≤ column a := ⟨fun a b => le_total _ _⟩
    have htrans : IsTrans R fun a b : R => column b ≤ column a :=
      ⟨fun a b c hab hbc => hbc.trans hab⟩
    rw [show matching db w = _ from hmap]
    exact List.pairwise_insertionSort _ _
  have hnodup : (matching db w).Pairwise fun a b => a ≠ b := by
    have hrows : db.rows.Nodup := List.Nodup.of_map _ db.nodup
    exact (hrows.sublist List.filter_sublist).perm (List.perm_insertionSort _ _).symm
  refine List.pairwise_iff_forall_sublist.2 fun {a b} hab => ?_
  have hle := List.pairwise_iff_forall_sublist.1 hsorted hab
  have hne := List.pairwise_iff_forall_sublist.1 hnodup hab
  have ha : a ∈ matching db w := hab.subset (List.mem_cons_self ..)
  have hb : b ∈ matching db w := hab.subset (by simp)
  exact lt_of_le_of_ne hle fun he => hne (hinj a b ha hb he.symm)

/-- A `SELECT` of a transaction that has not written anything: it has read a row of the
committed store, or missed one. -/
theorem wp_select {w : W} {k : Option R → Prog R K W ε β} (hw : ses.tx.writes = [])
    (hsome : ∀ ses' r, ses.Adds ses' [] → ses'.tx.Read w r → holds w r = true →
      P.Wp req (k (some r)) ses' Q)
    (hnone : ∀ ses', ses.Adds ses' [] → ses'.tx.Missed w → P.Wp req (k none) ses' Q) :
    P.Wp req (.stmt (.select w) k) ses Q := by
  intro env db _
  refine ⟨fun he => (by cases he), ?_⟩
  rw [Tx.view_of_no_writes hw]
  have hadd : ses.Adds (ses.reads (.select w) db) [] := Session.adds_takes _ _ _ _
  rcases pickRow_cases env.pick (matching db w) with ⟨hp, hnil⟩ | ⟨r, hr, hp⟩
  · rw [hp]
    refine hnone _ hadd ⟨⟨.select w, db, []⟩, List.mem_cons_self .., rfl, fun k' r hr => ?_⟩
    by_contra hh
    have hm := mem_matching.2 ⟨Db.mem_of_get hr, Bool.not_eq_false _ ▸ hh⟩
    rw [hnil] at hm
    simp at hm
  · rw [hp]
    obtain ⟨hrow, hh⟩ := mem_matching.1 hr
    exact hsome _ r hadd
      ⟨⟨.select w, db, []⟩, List.mem_cons_self .., rfl, Db.get_of_mem hrow, hh⟩ hh

/-- A query of a transaction that has not written anything. -/
theorem wp_selectAll_noted {w : W} {k : List R → Prog R K W ε β} (hw : ses.tx.writes = [])
    (h : ∀ ses' e, ses.Adds ses' [] → ses'.tx.log = e :: ses.tx.log → e.stmt = .selectAll w →
      P.Wp req (k (matching e.db w)) ses' Q) :
    P.Wp req (.stmt (.selectAll w) k) ses Q := by
  intro env db _
  refine ⟨fun he => (by cases he), ?_⟩
  rw [Tx.view_of_no_writes hw]
  exact h _ ⟨.selectAll w, db, []⟩ (Session.adds_takes _ db [] []) rfl rfl

theorem wp_selectAll {w : W} {k : List R → Prog R K W ε β}
    (h : ∀ ses' rs, ses.Adds ses' [] → P.Wp req (k rs) ses' Q) :
    P.Wp req (.stmt (.selectAll w) k) ses Q :=
  fun _ db _ => ⟨fun he => (by cases he), h _ _ (Session.adds_takes _ db [] [])⟩

/-- The attempt to lock a row is noted, with a lock or without one. -/
theorem wp_tryLock_noted {w : W} {k' : K} {k : Option R → Prog R K W ε β}
    (hw : ses.tx.writes = [])
    (hsome : ∀ ses' r e, ses.Adds ses' [] → ses'.tx.Locked w r → key r = k' →
      ses'.tx.log = e :: ses.tx.log → e.stmt = .tryLock w k' → P.Wp req (k (some r)) ses' Q)
    (hnone : ∀ ses' e, ses.Adds ses' [] → ses'.tx.log = e :: ses.tx.log → e.stmt = .tryLock w k' →
      e.locks = [] → P.Wp req (k none) ses' Q) :
    P.Wp req (.stmt (.tryLock w k') k) ses Q := by
  intro env db _
  simp only [exec]
  rw [Tx.view_of_no_writes hw]
  have hmiss := hnone (ses.reads (.tryLock w k') db) ⟨.tryLock w k', db, []⟩
    (Session.adds_takes _ _ _ _) rfl rfl rfl
  by_cases hb : env.bars [⟨k', .update⟩]
  · rw [if_pos hb]
    exact ⟨fun he => (by cases he), hmiss⟩
  · rw [if_neg hb]
    cases hg : db.get k' with
    | none => exact ⟨fun he => (by cases he), hmiss⟩
    | some r =>
      by_cases hh : holds w r
      · simp only [hh, if_true]
        have hk := Db.key_of_get hg
        refine ⟨fun he => (by cases he), hsome _ r _ (Session.adds_takes _ _ _ _)
          ⟨⟨_, db, _⟩, List.mem_cons_self .., ?_⟩ hk rfl rfl⟩
        rw [hk]
        exact ⟨hg, hh, List.mem_singleton_self _⟩
      · simp only [hh]
        exact ⟨fun he => (by cases he), hmiss⟩

theorem wp_tryLock {w : W} {k' : K} {k : Option R → Prog R K W ε β} (hw : ses.tx.writes = [])
    (hsome : ∀ ses' r, ses.Adds ses' [] → ses'.tx.Locked w r → key r = k' →
      P.Wp req (k (some r)) ses' Q)
    (hnone : ∀ ses', ses.Adds ses' [] → P.Wp req (k none) ses' Q) :
    P.Wp req (.stmt (.tryLock w k') k) ses Q :=
  wp_tryLock_noted hw (fun ses' r _ h hl hk _ _ => hsome ses' r h hl hk)
    fun ses' _ h _ _ _ => hnone ses' h

theorem wp_insert {r : R} {k : Unit → Prog R K W ε β}
    (h : ∀ ses', ses.Adds ses' [.insert r] →
      ((∀ w ∈ ses.tx.writes, w.target ≠ key r) → ses'.tx.Fresh (key r)) →
      P.Wp req (k ()) ses' Q) :
    P.Wp req (.stmt (.insert r) k) ses Q := by
  intro env db _
  simp only [exec]
  split
  · trivial
  · trivial
  · rename_i x r' ses' db' he
    split at he <;> try cases he
    split at he <;> try cases he
    split at he <;> try cases he
    split at he <;> cases he
    rename_i _ hocc _ _
    refine ⟨fun he => (by cases he), h _ (Session.adds_takes _ _ _ _) fun hw => ?_⟩
    refine ⟨⟨_, db, _⟩, List.mem_cons_self .., ?_, by simp [insertLocks]⟩
    rw [← Tx.view_get hw, Db.get_eq_none_iff]
    intro x hx hk
    exact hocc (List.any_eq_true.2 ⟨x, hx, by simp [hk]⟩)

theorem wp_insertNew {rs : List R} {k : Nat → Prog R K W ε β}
    (h : ∀ ses' n (new : List R), ses.Adds ses' (new.map .insert) → (∀ r ∈ new, r ∈ rs) →
      new.Pairwise (fun a b => clash a b = false) → P.Wp req (k n) ses' Q) :
    P.Wp req (.stmt (.insertNew rs) k) ses Q := by
  intro env db _
  simp only [exec]
  split
  · trivial
  · trivial
  · rename_i x r' ses' db' he
    split at he <;> try cases he
    split at he <;> try cases he
    split at he <;> cases he
    exact ⟨fun he => (by cases he),
      h _ _ _ (Session.adds_takes _ _ _ _) (fun r hr => mem_of_mem_newRows hr)
        (pairwise_newRows _ _)⟩

theorem wp_upsert {rs : List R} {k : Unit → Prog R K W ε β}
    (h : ∀ ses' view, ses.Adds ses' (rs.map (upsertWrite view)) → P.Wp req (k ()) ses' Q) :
    P.Wp req (.stmt (.upsert rs) k) ses Q := by
  intro env db _
  simp only [exec]
  split
  · trivial
  · trivial
  · rename_i x r' ses' db' he
    split at he <;> try cases he
    split at he <;> try cases he
    split at he <;> try cases he
    split at he <;> cases he
    exact ⟨fun he => (by cases he), h _ _ (Session.adds_takes _ _ _ _)⟩

theorem wp_update {old new : R} {k : Bool → Prog R K W ε β}
    (htrue : ∀ ses', ses.Adds ses' [.update old new] →
      ((∀ w ∈ ses.tx.writes, w.target ≠ key old) → ses'.tx.Found (key old)) →
      (∀ k' ∈ newRefs old new, (∀ w ∈ ses.tx.writes, w.target ≠ k') → ses'.tx.Found k') →
      P.Wp req (k true) ses' Q)
    (hfalse : ∀ ses' db, ses.Adds ses' [] → P.Since req ses.tx db →
      (ses.tx.view db).get (key old) = none → P.Wp req (k false) ses' Q) :
    P.Wp req (.stmt (.update old new) k) ses Q := by
  intro env db hsince
  simp only [exec]
  split
  · trivial
  · trivial
  · rename_i x r' ses' db' he
    split at he
    · rename_i hcur
      cases he
      exact ⟨fun he => (by cases he), hfalse _ db (Session.adds_takes _ _ _ _) hsince hcur⟩
    · rename_i cur hcur
      split at he <;> try cases he
      split at he <;> try cases he
      split at he <;> cases he
      rename_i _ _ hpres
      refine ⟨fun he => (by cases he),
        htrue _ (Session.adds_takes _ _ _ _) (fun hw => ?_) fun k' hk' hw => ?_⟩
      · refine ⟨⟨_, db, _⟩, List.mem_cons_self .., ?_, _, List.mem_cons_self ..⟩
        rw [← Tx.view_get hw, hcur]
        rfl
      · refine ⟨⟨_, db, _⟩, List.mem_cons_self .., ?_, .keyShare,
          List.mem_cons_of_mem _ (List.mem_map.2 ⟨k', hk', rfl⟩)⟩
        rw [← Tx.view_get hw]
        exact List.all_eq_true.1 (Bool.not_eq_false _ ▸ hpres) k' hk'

theorem wp_delete {k' : K} {k : Bool → Prog R K W ε β}
    (htrue : ∀ ses' e, e ∈ ses'.tx.log → e.locks = deleteLocks (ses.tx.view e.db) k' →
      ses.Adds ses' ((referring (ses.tx.view e.db) k').map (unrefWrite k') ++ [.delete k']) →
      P.Wp req (k true) ses' Q)
    (hfalse : ∀ ses' e, ses.Adds ses' [] → e ∈ ses'.tx.log → e.stmt = .delete k' →
      (ses.tx.view e.db).get k' = none → P.Wp req (k false) ses' Q) :
    P.Wp req (.stmt (.delete k') k) ses Q := by
  intro env db _
  simp only [exec]
  split
  · trivial
  · trivial
  · rename_i x r' ses' db' he
    split at he
    · rename_i hcur
      cases he
      exact ⟨fun he => (by cases he), hfalse _ ⟨_, db, []⟩ (Session.adds_takes _ _ _ _)
        (List.mem_cons_self ..) rfl hcur⟩
    · split at he <;> cases he
      exact ⟨fun he => (by cases he),
        htrue _ ⟨_, db, _⟩ (List.mem_cons_self ..) rfl (Session.adds_takes _ _ _ _)⟩

/-! ## Two specifications at once -/

/-- A specification with more said about the shape and the answers. -/
def also (P : Spec R K W Req ε α) (shape : Req → Tx R K W → Prop)
    (post : Req → Except ε α → List (Tx R K W) → Prop) : Spec R K W Req ε α where
  rely := P.rely
  refusals := P.refusals
  shape req tx := P.shape req tx ∧ shape req tx
  post req res past := P.post req res past ∧ post req res past

/-- What is added alone. -/
def only (P : Spec R K W Req ε α) (shape : Req → Tx R K W → Prop)
    (post : Req → Except ε α → List (Tx R K W) → Prop) : Spec R K W Req ε α where
  rely := P.rely
  refusals := P.refusals
  shape := shape
  post := post

theorem wp_also {shape : Req → Tx R K W → Prop}
    {post : Req → Except ε α → List (Tx R K W) → Prop} {Q' : β → Session R K W → Prop}
    {x : Prog R K W ε β} (h : P.Wp req x ses Q) (h' : (P.only shape post).Wp req x ses Q') :
    (P.also shape post).Wp req x ses fun b ses' => Q b ses' ∧ Q' b ses' := by
  induction x generalizing ses with
  | ret b => exact ⟨h, h'⟩
  | throw e => exact ⟨h, h'⟩
  | stmt q k ih =>
    intro env db hsince
    have hs := h env db ⟨hsince.frame, hsince.drift⟩
    have hs' := h' env db ⟨hsince.frame, hsince.drift⟩
    revert hs hs'
    cases exec env db ses q with
    | blocked => exact fun _ _ => trivial
    | error e => exact fun _ _ => trivial
    | ok r ses' db' => exact fun hs hs' => ⟨fun hq => ⟨hs.1 hq, hs'.1 hq⟩, ih r hs.2 hs'.2⟩

/-- **Each half may be shown by itself.** -/
theorem Valid.also {shape : Req → Tx R K W → Prop}
    {post : Req → Except ε α → List (Tx R K W) → Prop} (h : P.Valid S)
    (h' : (P.only shape post).Valid S) : (P.also shape post).Valid S :=
  ⟨fun req => wp_also (h.handle req) (h'.handle req),
    fun href req e past => ⟨h.refused href req e past, h'.refused href req e past⟩⟩

end Rules

end Spec

end ReadCommitted
