import GpuNetwork.Store.Trail
import GpuNetwork.Store.Unique
import GpuNetwork.Store.Versions

/-!
# Requests in turn

Where a request arrives only once the one before it has been answered and its session is
closed, nobody holds a lock but the request that is handled, and the rows a transaction
stamps with its own start are stamped in the order in which they are inserted.

* `InTurn`, `OneOpen` — the promise and what it keeps.
* `Prog.Dated` — the rows a program inserts are dated by the start of its transaction.
* `Stamps`, `InOrder`, `stamped_in_order` — the order of the stamps.
-/

namespace ReadCommitted

open Schema

variable {R K W Req ε α β : Type} [Schema R K W]

/-- The request has been answered and its session is closed. -/
def Thread.Closed (th : Thread R K W Req ε α) : Prop :=
  th.prog.Finished = true ∧ th.ses.tx = {} ∧ th.begunAt = none

/-- A request arrives only when all others are closed. -/
def InTurn : Terms R Req ε α := fun s l _ => ∀ req, l = .spawn req → ∀ th ∈ s.threads, th.Closed

/-- The promise as a check. -/
def Sys.closed (s : Sys R Req ε α) : Label Req → Bool
  | .spawn _ => s.threads.all fun th => th.prog.Finished && th.ses.tx.log.isEmpty &&
      th.ses.tx.writes.isEmpty && th.begunAt.isNone
  | _ => true

/-- Of two requests one is closed. -/
def OneOpen (s : Sys R Req ε α) : Prop :=
  ∀ (i j : Nat) (ti tj : Thread R K W Req ε α), i ≠ j → s.threads[i]? = some ti →
    s.threads[j]? = some tj → ¬ ti.Closed → tj.Closed

variable [DecidableEq K] {S : Server R K W Req ε α} {s s' : Sys R Req ε α} {l : Label Req}

/-- A request that is closed stays closed. -/
theorem Moves.closed {i : Nat} {db : Db R} {th th' : Thread R K W Req ε α}
    (hm : Moves S s i th l db th') (h : th.Closed) : th'.Closed := by
  have hf := h.1
  cases hm with
  | runs hp he => rw [hp] at hf; cases hf
  | refused hp hr => rw [hp] at hf; cases hf
  | closes hf => exact ⟨hf, rfl, rfl⟩

theorem oneOpen_step (hI : OneOpen s) (hs : step S s l = some s') (ht : InTurn s l s') :
    OneOpen s' := by
  intro i j ti tj hij hi hj hopen
  rcases step_cases hs with ⟨req, rfl, rfl⟩ | ⟨d, -, rfl⟩ | ⟨m, th, th', db, hm, -, hmv, rfl⟩
  · rcases getElem?_concat_cases hj with hj | ⟨hjl, -⟩
    · exact ht req rfl tj (List.mem_of_getElem? hj)
    · rcases getElem?_concat_cases hi with hi | ⟨hil, -⟩
      · exact absurd (ht req rfl ti (List.mem_of_getElem? hi)) hopen
      · exact absurd (hil.trans hjl.symm) hij
  · exact hI i j ti tj hij hi hj hopen
  · rcases getElem?_set_cases hi with ⟨rfl, rfl⟩ | ⟨-, hi'⟩
    · rcases getElem?_set_cases hj with ⟨hji, -⟩ | ⟨-, hj'⟩
      · exact absurd hji.symm hij
      · exact hI _ j th tj hij hm hj' fun hc => hopen (hmv.closed hc)
    · rcases getElem?_set_cases hj with ⟨rfl, rfl⟩ | ⟨-, hj'⟩
      · exact hmv.closed (hI i _ ti th hij hi' hm hopen)
      · exact hI i j ti tj hij hi' hj' hopen

omit [DecidableEq K] in
/-- **Nobody else holds a lock.** -/
theorem OneOpen.not_held (h : OneOpen s) {i : Nat} {th : Thread R K W Req ε α}
    (hi : s.threads[i]? = some th) (hopen : ¬ th.Closed) (k : K) : ¬ HeldByOther s i k := by
  rintro ⟨j, tj, lock, hji, hj, hlock, -⟩
  have hclosed := h i j th tj (Ne.symm hji) hi hj hopen
  rw [hclosed.2.1] at hlock
  simp at hlock

/-! ## Dated rows -/

/-- A row the statement may insert. -/
def Stmt.enters (q : Stmt R K W) (r : R) : Prop :=
  match q with
  | .insert x => r = x
  | .insertNew xs => r ∈ xs
  | .upsert xs => r ∈ xs
  | _ => False

theorem insert_mem_writes {q : Stmt R K W} {env : Env R K} {db db' : Db R}
    {ses ses' : Session R K W} {x : q.Res} (h : exec env db ses q = .ok x ses' db') {r : R}
    (hr : .insert r ∈ ses'.tx.writes) : .insert r ∈ ses.tx.writes ∨ q.enters r := by
  rcases exec_issues h hr with hold | hnew
  · exact Or.inl hold
  · refine Or.inr ?_
    generalize hw : (Write.insert r : Write R K) = w at hnew
    cases hnew with
    | insert hfits => exact Write.insert.inj hw
    | insertNew hmem hfits =>
      rw [Write.insert.inj hw]
      exact mem_of_mem_newRows hmem
    | upsert hmem hfits =>
      unfold upsertWrite at hw
      split at hw <;> cases hw
      exact hmem
    | update hfits => cases hw
    | unref hmem =>
      unfold unrefWrite at hw
      split at hw <;> cases hw
    | delete => cases hw

/-- What the answer to a statement says about the start of its transaction. -/
def Stmt.Tells (t : Time) : (q : Stmt R K W) → q.Res → Prop
  | .txTime, r => r = t
  | _, _ => True

/-- The rows the program inserts satisfy `D` with the start of its transaction. -/
def Prog.Dated (D : Time → R → Prop) : Prog R K W ε α → Option Time → Prop
  | .stmt q k, b => ∀ now : Time, (∀ r, q.enters r → D (b.getD now) r) ∧
      ∀ x, q.Tells (b.getD now) x → (k x).Dated D (begunAfter now b q)
  | _, _ => True

variable {D : Time → R → Prop}

omit [Schema R K W] [DecidableEq K] in
theorem dated_bind {x : Prog R K W ε β} {f : β → Prog R K W ε α} {b : Option Time}
    (hx : x.Dated D b) (hf : ∀ a b', (f a).Dated D b') : (x >>= f).Dated D b := by
  induction x generalizing b with
  | ret a => exact hf a b
  | throw e => trivial
  | stmt q k ih =>
    intro now
    obtain ⟨hq, hk⟩ := hx now
    exact ⟨hq, fun r hr => ih r (hk r hr)⟩

omit [Schema R K W] [DecidableEq K] in
/-- A program that inserts no dated row. -/
theorem dated_of_emits {x : Prog R K W ε α} (hx : x.Emits fun q => ∀ t r, q.enters r → D t r)
    (b : Option Time) : x.Dated D b := by
  induction x generalizing b with
  | ret a => trivial
  | throw e => trivial
  | stmt q k ih => exact fun now => ⟨hx.1 _, fun r _ => ih r (hx.2 r) _⟩

/-- What a statement answers fits the start of its transaction. -/
theorem tells_exec {env : Env R K} {db db' : Db R} {ses ses' : Session R K W}
    {q : Stmt R K W} {x : q.Res} (h : exec env db ses q = .ok x ses' db') :
    q.Tells env.begunAt x := by
  cases q with
  | txTime => cases h; rfl
  | _ => trivial

/-! ## Dated threads -/

/-- What the thread has inserted, and what it is going to insert, is dated. -/
structure Thread.Dated (D : Time → R → Prop) (th : Thread R K W Req ε α) : Prop where
  prog : th.prog.Dated D th.begunAt
  writes : ∀ r, .insert r ∈ th.ses.tx.writes → ∃ t, th.begunAt = some t ∧ D t r

omit [DecidableEq K] in
/-- A thread that has written nothing. -/
theorem Thread.dated_of_reset {th : Thread R K W Req ε α} (hprog : th.prog.Dated D th.begunAt)
    (hw : th.ses.tx.writes = []) : th.Dated D :=
  ⟨hprog, fun r hr => by rw [hw] at hr; simp at hr⟩

omit [Schema R K W] [DecidableEq K] in
theorem dated_of_finished {x : Prog R K W ε α} (h : x.Finished = true) (b : Option Time) :
    x.Dated D b := by
  cases x with
  | stmt q k => cases h
  | _ => trivial

/-- Where the transaction stands after a statement, and since when. -/
theorem begun_of_runs {i pick : Nat} {th : Thread R K W Req ε α} {q : Stmt R K W}
    {k : q.Res → Prog R K W ε α} {x : q.Res} {ses : Session R K W} {db : Db R}
    (hs : step S s (.run i pick) = some s') (hi : s.threads[i]? = some th)
    (hp : th.prog = .stmt q k) (he : exec (s.env i th pick) s.db th.ses q = .ok x ses db) :
    s'.threads[i]? = some ⟨th.req, k x, ses, begunAfter s.clock th.begunAt q⟩ := by
  have hlt := (List.getElem?_eq_some_iff.1 hi).1
  simp only [step, hi, hp, he, Option.some.injEq] at hs
  rw [← hs]
  exact List.getElem?_set_self hlt

omit [Schema R K W] [DecidableEq K] in
theorem begunAfter_of_enters {now : Time} {b : Option Time} {q : Stmt R K W} {r : R}
    (h : q.enters r) : begunAfter now b q = some (b.getD now) := by
  cases q with
  | insert x => rfl
  | insertNew xs => rfl
  | upsert xs => rfl
  | _ => cases h

omit [Schema R K W] [DecidableEq K] in
/-- A transaction that stays open has begun when it had. -/
theorem begunAfter_of_some {now t : Time} {q : Stmt R K W} (hc : q ≠ .commit)
    (hr : q ≠ .rollback) : begunAfter now (some t) q = some t := by
  cases q with
  | commit => exact absurd rfl hc
  | rollback => exact absurd rfl hr
  | _ => rfl

/-- **A step leaves what is inserted dated.** -/
theorem dated_step {A : Req → Prop} (hS : ∀ req, A req → (S.handle req).Dated D none)
    (hI : ∀ (i : Nat) (th : Thread R K W Req ε α), s.threads[i]? = some th → A th.req →
      th.Dated D)
    (hs : step S s l = some s') : ∀ (i : Nat) (th : Thread R K W Req ε α),
      s'.threads[i]? = some th → A th.req → th.Dated D := by
  intro j t hj hA
  rcases step_cases hs with ⟨req, -, rfl⟩ | ⟨d, -, rfl⟩ | ⟨i, th, th', db, hi, -, hm, hs'⟩
  · rcases getElem?_concat_cases hj with hj | ⟨-, rfl⟩
    · exact hI j t hj hA
    · exact Thread.dated_of_reset (hS req hA) rfl
  · exact hI j t hj hA
  · rw [hs'] at hj
    rcases getElem?_set_cases hj with ⟨rfl, rfl⟩ | ⟨-, hold⟩
    swap
    · exact hI j t hold hA
    have hbefore := hI j th hi (by rw [← hm.req_eq]; exact hA)
    cases hm with
    | refused _ _ => exact Thread.dated_of_reset trivial rfl
    | closes hf => exact Thread.dated_of_reset (dated_of_finished hf _) rfl
    | runs hp he =>
      rename_i pick q k x ses b
      have hb : b = begunAfter s.clock th.begunAt q := by
        have hrun := begun_of_runs hs hi hp he
        rw [hs', hj, Option.some.injEq, Thread.mk.injEq] at hrun
        exact hrun.2.2.2
      subst hb
      have hprog := hbefore.prog
      rw [hp] at hprog
      obtain ⟨hq, hk⟩ := hprog s.clock
      refine ⟨hk x (tells_exec he), fun r hr => ?_⟩
      rcases insert_mem_writes he hr with hr' | hr'
      · obtain ⟨t, ht, hd⟩ := hbefore.writes r hr'
        have hopen : q ≠ .commit ∧ q ≠ .rollback := by
          constructor
          · rintro rfl
            cases he
            simp at hr
          · rintro rfl
            cases he
            simp at hr
        refine ⟨t, ?_, hd⟩
        change begunAfter s.clock th.begunAt q = some t
        rw [ht]
        exact begunAfter_of_some hopen.1 hopen.2
      · exact ⟨_, begunAfter_of_enters hr', hq r hr'⟩

/-! ## Stamps -/

/-- The rows that the requests `A` insert, and no others, are stamped, each with the start
of the transaction that inserts it. -/
structure Stamps (P : Spec R K W Req ε α) (S : Server R K W Req ε α) (stamp : R → Option Time)
    (A : Req → Prop) : Prop where
  merge : ∀ old new cur, stamp (merge old new cur) = stamp cur
  dated : ∀ req, A req → (S.handle req).Dated (fun t r => ∀ t', stamp r = some t' → t' = t) none
  others : ∀ db req tx, P.Committing db req tx → ¬ A req → ∀ r, .insert r ∈ tx.writes →
    stamp r = none

/-- In a run of requests in turn no stamp is ahead of the clock, or of a transaction that
is open. -/
structure InOrder (stamp : R → Option Time) (A : Req → Prop) (s : Sys R Req ε α) : Prop where
  oneOpen : OneOpen s
  dated : ∀ (i : Nat) (th : Thread R K W Req ε α), s.threads[i]? = some th → A th.req →
    th.Dated fun t r => ∀ t', stamp r = some t' → t' = t
  clock : ∀ r ∈ s.db.rows, ∀ t, stamp r = some t → t ≤ s.clock
  begun : ∀ (i : Nat) (th : Thread R K W Req ε α) (b : Time), s.threads[i]? = some th →
    th.begunAt = some b → b ≤ s.clock ∧ ∀ r ∈ s.db.rows, ∀ t, stamp r = some t → t ≤ b

variable {P : Spec R K W Req ε α} {stamp : R → Option Time} {A : Req → Prop}

/-- What a transaction inserts is stamped with its start. -/
theorem Stamps.insert (hS : Stamps P S stamp A) (hI : InOrder stamp A s) (hok : P.Ok s) {i : Nat}
    {th : Thread R K W Req ε α} (hc : Commits s l i th) {r : R}
    (hr : .insert r ∈ th.ses.tx.writes) {t : Time} (ht : stamp r = some t) :
    th.begunAt = some t := by
  by_cases hA : A th.req
  · obtain ⟨t', hb, hd⟩ := (hI.dated i th hc.1 hA).writes r hr
    rw [hb, hd t ht]
  · rw [hS.others _ _ _ (hok.committing hc) hA r hr] at ht
    cases ht

/-- The stamps of the store a commit leaves: those of before, and its own start. -/
theorem Stamps.view (hS : Stamps P S stamp A) (hI : InOrder stamp A s) (hok : P.Ok s) {i : Nat}
    {th : Thread R K W Req ε α} (hc : Commits s l i th) {x : R}
    (hx : x ∈ (th.ses.tx.view s.db).rows) {t : Time} (ht : stamp x = some t) :
    (∃ y ∈ s.db.rows, key y = key x ∧ stamp y = some t) ∨ th.begunAt = some t := by
  have hV : Versions fun a b : R => key a = key b ∧ stamp a = stamp b :=
    ⟨fun a => ⟨rfl, rfl⟩, fun h h' => ⟨h.1.trans h'.1, h.2.trans h'.2⟩,
      fun old new cur => ⟨(key_merge old new cur).symm, (hS.merge old new cur).symm⟩⟩
  obtain ⟨y, ⟨hkey, hstamp⟩, hy | hy⟩ := exists_version_of_mem_applyAll hV hx
  · exact Or.inl ⟨y, hy, hkey, hstamp.trans ht⟩
  · exact Or.inr (hS.insert hI hok hc hy (hstamp.trans ht))

omit [Schema R K W] [DecidableEq K] in
/-- The start of a transaction after a statement is that of before, or now. -/
theorem begunAfter_cases {now t : Time} {b : Option Time} {q : Stmt R K W}
    (h : begunAfter now b q = some t) : b = some t ∨ (b = none ∧ t = now) := by
  cases b with
  | none =>
    refine Or.inr ⟨rfl, ?_⟩
    cases q <;> cases h <;> rfl
  | some b =>
    refine Or.inl ?_
    cases q <;> cases h <;> rfl

/-- The clock does not go back. -/
theorem clock_mono (hs : step S s l = some s') : s.clock ≤ s'.clock := by
  rcases step_cases hs with ⟨req, -, rfl⟩ | ⟨d, -, rfl⟩ | ⟨i, th, th', db, -, -, -, rfl⟩
  · exact le_rfl
  · exact Int.le_add_of_nonneg_right (Int.natCast_nonneg d)
  · exact le_rfl

/-- When a thread moves, its transaction has been open, or it begins now. -/
theorem begun_of_moves {i : Nat} {th th' : Thread R K W Req ε α} {db : Db R}
    (hs : step S s l = some s') (hi : s.threads[i]? = some th) (hm : Moves S s i th l db th')
    (hi' : s'.threads[i]? = some th') {b : Time} (hb : th'.begunAt = some b) :
    db = s.db ∧ (th.begunAt = some b ∨ b = s.clock) := by
  cases hm with
  | refused _ _ => cases hb
  | closes _ => cases hb
  | runs hp he =>
    rename_i q k x ses b'
    have hrun := begun_of_runs hs hi hp he
    rw [hi', Option.some.injEq, Thread.mk.injEq] at hrun
    have hafter : begunAfter s.clock th.begunAt q = some b := hrun.2.2.2.symm.trans hb
    refine ⟨?_, (begunAfter_cases hafter).imp id And.right⟩
    rcases exec_cases he with ⟨-, hdb, -⟩ | ⟨-, hdb, -⟩ | ⟨rfl, -, -⟩
    · exact hdb
    · exact hdb
    · cases hafter

/-- **The step lemma**: a step of a run of requests in turn leaves the stamps in order. -/
theorem inOrder_step (hS : Stamps P S stamp A) (hI : InOrder stamp A s) (hok : P.Ok s)
    (hs : step S s l = some s') (ht : InTurn s l s') : InOrder stamp A s' := by
  refine ⟨oneOpen_step hI.oneOpen hs ht, dated_step hS.dated hI.dated hs, ?_, ?_⟩
  · intro x hx t hst
    refine le_trans ?_ (clock_mono hs)
    rcases hok.db_cases hs with hdb | ⟨i, th, th', hc, -, hview, -, -, -⟩
    · rw [hdb] at hx
      exact hI.clock x hx t hst
    · rw [hview] at hx
      rcases hS.view hI hok hc hx hst with ⟨y, hy, -, hsy⟩ | hb
      · exact hI.clock y hy t hsy
      · exact (hI.begun i th t hc.1 hb).1
  · intro j tj b hj hb
    rcases step_cases hs with ⟨req, -, rfl⟩ | ⟨d, -, rfl⟩ | ⟨i, th, th', db, hi, -, hm, hs'⟩
    · rcases getElem?_concat_cases hj with hj | ⟨-, rfl⟩
      · exact hI.begun j tj b hj hb
      · cases hb
    · obtain ⟨hle, hrows⟩ := hI.begun j tj b hj hb
      exact ⟨hle.trans (clock_mono hs), hrows⟩
    · have hj' := hj
      rw [hs'] at hj'
      subst hs'
      rcases getElem?_set_cases hj' with ⟨rfl, rfl⟩ | ⟨hji, hold⟩
      · obtain ⟨rfl, hb' | rfl⟩ := begun_of_moves hs hi hm hj hb
        · exact hI.begun j th b hi hb'
        · exact ⟨le_rfl, hI.clock⟩
      · rcases Spec.Ok.moves_cases hi hm with rfl | hc
        · exact hI.begun j tj b hold hb
        · -- thread `i` is open, so that thread `j` is closed
          obtain ⟨-, ⟨k, hp⟩, -⟩ := hc
          have hopen : ¬ th.Closed := by
            intro hcl
            have hf := hcl.1
            rw [hp] at hf
            cases hf
          rw [(hI.oneOpen i j th tj (Ne.symm hji) hi hold hopen).2.2] at hb
          cases hb

/-- **Stamps follow the order of the insertions.**  A row that is inserted is not stamped
before one that is there. -/
theorem stamped_in_order (hS : Stamps P S stamp A) (hI : InOrder stamp A s) (hok : P.Ok s)
    (hs : step S s l = some s') {x y : R} (hx : x ∈ s'.db.rows) (hnew : s.db.get (key x) = none)
    (hy : y ∈ s.db.rows) {t t' : Time} (ht : stamp x = some t) (ht' : stamp y = some t') :
    t' ≤ t := by
  rcases hok.db_cases hs with hdb | ⟨i, th, th', hc, -, hview, -, -, -⟩
  · rw [hdb] at hx
    rw [Db.get_of_mem hx] at hnew
    cases hnew
  · rw [hview] at hx
    rcases hS.view hI hok hc hx ht with ⟨z, hz, hkey, -⟩ | hb
    · rw [← hkey, Db.get_of_mem hz] at hnew
      cases hnew
    · exact (hI.begun i th t hc.1 hb).2 y hy t' ht'

end ReadCommitted
