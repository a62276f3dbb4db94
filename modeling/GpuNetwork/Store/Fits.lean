import GpuNetwork.Store.Alone
import GpuNetwork.Store.Rows

/-!
# Numbers and their columns

The database refuses a row with a number that does not fit its column.  So the rows of a
store fit, whatever the programs are that write them; and a program that brings only
numbers that fit is never refused for one.

* `FitKept` — updates and the actions of foreign keys keep numbers in their columns.
* `fitting_of_reach` — the rows of every store of a run fit.
* `Refused` — the next statement of a thread is refused; `not_refused_of_keeps` — not for a
  number, where the program keeps to rows that fit.
* `Prog.refusal`, `refusal_of_leads`, `exists_refused` — a refusal of a program that runs alone
  is one of a run.
-/

namespace ReadCommitted

open Schema

variable {R K W Req ε α β : Type} [Schema R K W]

/-- Every number of the row fits its column. -/
abbrev Fits (r : R) : Prop := fits r = true

/-- Updates and the actions of foreign keys keep numbers in their columns. -/
structure FitKept (R : Type) {K W : Type} [Schema R K W] : Prop where
  merge : ∀ old new cur : R, Fits new → Fits cur → Fits (merge old new cur)
  unref : ∀ (k : K) (r r' : R), Fits r → unref k r = some r' → Fits r'

theorem FitKept.rowInvariant (hF : FitKept R) : RowInvariant (Fits : R → Prop) :=
  ⟨fun old new cur _ => hF.merge old new cur, hF.unref⟩

/-- The row that the write brings fits. -/
def Write.Fitting : Write R K → Prop
  | .insert r => Fits r
  | .update _ new => Fits new
  | .delete _ => True

section Store

variable [DecidableEq K]

theorem FitKept.every_apply (hF : FitKept R) {db : Db R} (hdb : db.Every Fits) {w : Write R K}
    (hw : w.Fitting) : (w.apply db).Every Fits := by
  intro x hx
  cases w with
  | insert r =>
    rcases Db.get_insert_cases (Db.get_of_mem hx) with hold | ⟨-, rfl, -⟩
    · exact hdb x (Db.mem_of_get hold)
    · exact hw
  | update old new =>
    obtain ⟨r, hr, rfl⟩ := List.mem_map.1 hx
    by_cases hk : key r = key old
    · rw [if_pos hk]
      exact hF.merge _ _ _ hw (hdb r hr)
    · rw [if_neg hk]
      exact hdb r hr
  | delete k => exact hdb x (List.mem_filter.1 hx).1

theorem FitKept.every_applyAll (hF : FitKept R) {ws : List (Write R K)} {db : Db R}
    (hdb : db.Every Fits) (hws : ∀ w ∈ ws, w.Fitting) : (applyAll ws db).Every Fits := by
  induction ws generalizing db with
  | nil => exact hdb
  | cons w ws ih =>
    obtain ⟨hw, hws⟩ := List.forall_mem_cons.1 hws
    exact ih (hF.every_apply hdb hw) hws

/-- What a statement writes fits, for the database has checked it. -/
theorem FitKept.fitting_issues (hF : FitKept R) {view : Db R} (hview : view.Every Fits)
    {q : Stmt R K W} {w : Write R K} (hw : q.Issues view w) : w.Fitting := by
  cases hw with
  | insert hfits => exact hfits
  | insertNew hr hfits => exact hfits
  | @upsert rs r hr hfits =>
    unfold upsertWrite
    cases view.get (key r) with
    | none => exact hfits
    | some old => exact hfits
  | update hfits => exact hfits
  | @unref k r hr =>
    unfold unrefWrite
    cases hu : Schema.unref k r with
    | none => trivial
    | some r' => exact hF.unref k r r' (hview r (List.mem_filter.1 hr).1) hu
  | delete => trivial

/-! ## Runs -/

variable {S : Server R K W Req ε α} {s s' : Sys R Req ε α} {l : Label Req}

/-- The rows of the store fit, and those that are going to be written. -/
structure Sys.Fitting (s : Sys R Req ε α) : Prop where
  rows : s.db.Every Fits
  pending : ∀ th ∈ s.threads, ∀ w ∈ th.ses.tx.writes, w.Fitting

theorem fitting_step (hF : FitKept R) (hI : s.Fitting) (hs : step S s l = some s') :
    s'.Fitting := by
  have hset : ∀ {i : Nat} {th' : Thread R K W Req ε α}, (∀ w ∈ th'.ses.tx.writes, w.Fitting) →
      ∀ th ∈ s.threads.set i th', ∀ w ∈ th.ses.tx.writes, w.Fitting := by
    intro i th' hth' th hth
    rcases List.mem_or_eq_of_mem_set hth with hold | rfl
    · exact hI.pending th hold
    · exact hth'
  rcases step_cases hs with ⟨req, -, rfl⟩ | ⟨d, -, rfl⟩ | ⟨i, t, t', db, hi, -, hmv, rfl⟩
  · refine ⟨hI.rows, fun th hth w hw => ?_⟩
    rcases List.mem_append.1 hth with hold | hnew
    · exact hI.pending th hold w hw
    · rw [List.mem_singleton.1 hnew] at hw
      simp at hw
  · exact ⟨hI.rows, hI.pending⟩
  · have ht := hI.pending t (List.mem_of_getElem? hi)
    have hview : (t.ses.tx.view s.db).Every Fits := hF.every_applyAll hI.rows ht
    cases hmv with
    | @runs pick q k r ses db b hp he =>
      refine ⟨?_, hset fun w hw => ?_⟩
      · rcases exec_cases he with ⟨-, hdb, -⟩ | ⟨-, hdb, -⟩ | ⟨-, hdb, -⟩
        · exact hdb ▸ hI.rows
        · exact hdb ▸ hI.rows
        · exact hdb ▸ hview
      · rcases exec_issues he hw with hold | hnew
        · exact ht w hold
        · exact hF.fitting_issues hview hnew
    | refused _ _ => exact ⟨hI.rows, hset fun w hw => by simp at hw⟩
    | closes _ => exact ⟨hI.rows, hset fun w hw => by simp at hw⟩

/-- **The rows of every store of a run fit**, whatever the handlers write. -/
theorem fitting_of_reach (hF : FitKept R) {T : Terms R Req ε α} {s₀ : Sys R Req ε α}
    (h₀ : s₀.threads = []) (hdb : s₀.db.Every Fits) (h : Reach S T s₀ s) : s.db.Every Fits := by
  have hstart : s₀.Fitting := ⟨hdb, by simp [h₀]⟩
  exact (h.invariant Sys.Fitting (fun _ _ _ hI hs _ => fitting_step hF hI hs) hstart).rows

/-! ## Refusals -/

/-- The next statement of thread `i` can be refused with the error. -/
def Refused (s : Sys R Req ε α) (i : Nat) (e : SqlError) : Prop :=
  ∃ (th : Thread R K W Req ε α) (q : Stmt R K W) (k : q.Res → Prog R K W ε α) (pick : Nat),
    s.threads[i]? = some th ∧ th.prog = .stmt q k ∧
      exec (s.env i th pick) s.db th.ses q = .error e

omit [DecidableEq K] in
theorem complaint_ne_outOfRange {rs : List R} (h : ∀ r ∈ rs, Fits r) :
    complaint rs ≠ .outOfRange := by
  have hall : rs.all fits = true := List.all_eq_true.2 h
  rw [complaint, if_neg (by simp [hall])]
  split <;> simp

omit [DecidableEq K] in
theorem complaint_eq_outOfRange {rs : List R} (h : ∃ r ∈ rs, ¬ Fits r) :
    complaint rs = .outOfRange :=
  if_pos (List.all_eq_false.2 h)

/-- A statement that writes rows that fit is not refused for a number. -/
theorem exec_ne_outOfRange {env : Env R K} {db : Db R} {ses : Session R K W} {q : Stmt R K W}
    (hq : q.Keeps Fits) : exec env db ses q ≠ .error .outOfRange := by
  intro he
  cases q with
  | tryLock w k =>
    simp only [exec] at he
    split at he <;> try cases he
    split at he <;> try cases he
    split at he <;> cases he
  | insert r =>
    simp only [exec] at he
    split at he
    · exact complaint_ne_outOfRange (List.forall_mem_singleton.2 hq) (Outcome.error.inj he)
    split at he <;> try cases he
    split at he <;> try cases he
    split at he <;> cases he
  | insertNew rs =>
    simp only [exec] at he
    split at he
    · exact complaint_ne_outOfRange hq (Outcome.error.inj he)
    split at he <;> try cases he
    split at he <;> cases he
  | upsert rs =>
    simp only [exec] at he
    split at he
    · exact complaint_ne_outOfRange hq (Outcome.error.inj he)
    split at he <;> try cases he
    split at he <;> try cases he
    split at he <;> cases he
  | update old new =>
    simp only [exec] at he
    split at he <;> try cases he
    split at he
    · exact complaint_ne_outOfRange (List.forall_mem_singleton.2 hq.2) (Outcome.error.inj he)
    split at he <;> try cases he
    split at he <;> cases he
  | delete k =>
    simp only [exec] at he
    split at he <;> try cases he
    split at he <;> cases he
  | _ => cases he

/-- **A thread is never refused for a number** whose handler brings rows that fit where it
has read rows that do. -/
theorem not_refused_of_keeps (hF : FitKept R) {T : Terms R Req ε α} {s₀ : Sys R Req ε α}
    {A : Req → Prop} (hserve : ∀ req, A req → (S.handle req).Keeps Fits fun _ => True)
    (h₀ : s₀.threads = []) (hdb : s₀.db.Every Fits) (h : Reach S T s₀ s) {i : Nat}
    {th : Thread R K W Req ε α} (hi : s.threads[i]? = some th) (hA : A th.req) :
    ¬ Refused s i .outOfRange := by
  rintro ⟨t, q, k, pick, ht, hp, he⟩
  rw [hi, Option.some.injEq] at ht
  subst ht
  have hkeeps := keeps_of_reach hF.rowInvariant (Q := fun _ _ => True) hserve
    (fun _ hr => fitting_of_reach hF h₀ hdb hr) h₀ h th (List.mem_of_getElem? hi) hA
  have hprog := hkeeps.prog
  rw [hp] at hprog
  exact exec_ne_outOfRange hprog.1 he

/-! ## Refusals of a program that runs alone -/

variable {sqlError : SqlError → ε} {w w' : World R K W}

/-- Why a program is refused that runs alone, if it is. -/
def Prog.refusal : Prog R K W ε α → World R K W → Option SqlError
  | .ret _, _ => none
  | .throw _, _ => none
  | .stmt q k, w =>
    match ReadCommitted.exec (w.moments 0).env w.db w.ses q with
    | .blocked => none
    | .error e => some e
    | .ok r ses db => (k r).refusal (w.next db ses)

/-- A program is refused where what comes before has gone through. -/
theorem refusal_bind {x : Prog R K W ε β} {f : β → Prog R K W ε α} {b : β}
    (h : x.alone sqlError w = (.ok b, w')) : (x >>= f).refusal w = (f b).refusal w' := by
  induction x generalizing w with
  | ret a => cases h; rfl
  | throw e => cases h
  | stmt q k ih =>
    rw [Prog.alone] at h
    rw [Prog.stmt_bind, Prog.refusal]
    cases he : ReadCommitted.exec (w.moments 0).env w.db w.ses q with
    | blocked => rw [he] at h; cases h
    | error e => rw [he] at h; cases h
    | ok r ses db =>
      rw [he] at h
      exact ih r h

/-- The reason of the first part is that of the whole. -/
theorem refusal_bind_of_some {x : Prog R K W ε β} {f : β → Prog R K W ε α} {e : SqlError}
    (h : x.refusal w = some e) : (x >>= f).refusal w = some e := by
  induction x generalizing w with
  | ret a => cases h
  | throw e => cases h
  | stmt q k ih =>
    rw [Prog.refusal] at h
    rw [Prog.stmt_bind, Prog.refusal]
    cases he : ReadCommitted.exec (w.moments 0).env w.db w.ses q with
    | blocked => rw [he] at h; cases h
    | error e => rw [he] at h; exact h
    | ok r ses db =>
      rw [he] at h
      exact ih r h

/-- A program is refused where what comes before leads to a part that is. -/
theorem refusal_of_leads {x : Prog R K W ε β} {f : β → Prog R K W ε α} {e : SqlError}
    (h : x.Leads sqlError w (fun b w' => (f b).refusal w' = some e) fun _ => False) :
    (x >>= f).refusal w = some e := by
  obtain ⟨b, w', hb, hrest⟩ := h.exists_ok
  rw [refusal_bind hb]
  exact hrest

section OutOfRange

variable {old new cur r : R} {rs : List R}

theorem refusal_insert (h : ¬ Fits r) (k : Unit → Prog R K W ε α) :
    (Prog.stmt (.insert r) k).refusal w = some .outOfRange := by
  have hstore : storable r = false := Bool.eq_false_iff.2 fun hr => h (fits_of_storable hr)
  have hwhy : complaint [r] = .outOfRange := complaint_eq_outOfRange ⟨r, by simp, h⟩
  simp [Prog.refusal, exec, hstore, hwhy]

omit [DecidableEq K] in
theorem sendable_of_not_fits (h : ∃ r ∈ rs, ¬ Fits r) : sendable rs = false := by
  obtain ⟨r, hr, hfits⟩ := h
  exact Bool.eq_false_iff.2 fun hs => hfits (fits_of_storable (storable_of_sendable hs hr))

theorem refusal_insertNew (h : ∃ r ∈ rs, ¬ Fits r) (k : Nat → Prog R K W ε α) :
    (Prog.stmt (.insertNew rs) k).refusal w = some .outOfRange := by
  simp [Prog.refusal, exec, sendable_of_not_fits h, complaint_eq_outOfRange h]

theorem refusal_upsert (h : ∃ r ∈ rs, ¬ Fits r) (k : Unit → Prog R K W ε α) :
    (Prog.stmt (.upsert rs) k).refusal w = some .outOfRange := by
  simp [Prog.refusal, exec, sendable_of_not_fits h, complaint_eq_outOfRange h]

theorem refusal_update (hcur : (w.ses.tx.view w.db).get (key old) = some cur) (h : ¬ Fits new)
    (k : Bool → Prog R K W ε α) :
    (Prog.stmt (.update old new) k).refusal w = some .outOfRange := by
  have hfits : fits new = false := by simpa using h
  have hwhy : complaint [new] = .outOfRange := complaint_eq_outOfRange ⟨new, by simp, h⟩
  simp [Prog.refusal, exec, hcur, storableOver, hfits, hwhy]

end OutOfRange

/-- The moments of a run in which the clock stands still. -/
def still (t : Time) (picks : Nat → Nat) : Nat → Moment := fun n => ⟨t, t, picks n⟩

/-- **A refusal of a program that runs alone is one of a run**, where nobody else holds a
lock or has rows in flight. -/
theorem exists_refused {i : Nat} {th : Thread R K W Req ε α} (hi : s.threads[i]? = some th)
    (hothers : ∀ t ∈ s.others i, t.ses.tx = {}) (hbegun : th.begunAt.getD s.clock = s.clock)
    {picks : Nat → Nat} {e : SqlError}
    (h : th.prog.refusal (th.world s.db (still s.clock picks)) = some e) :
    ∃ s' th', Reach S anyTerms s s' ∧ s'.threads[i]? = some th' ∧ th'.req = th.req ∧
      Refused s' i e := by
  generalize hx : th.prog = x at h
  induction x generalizing s th picks with
  | ret a => cases h
  | throw e => cases h
  | stmt q k ih =>
    have henv := env_of_idle th hothers (picks 0)
    rw [hbegun] at henv
    rw [Prog.refusal] at h
    simp only [Thread.world, still] at h
    rw [← henv] at h
    cases he : exec (s.env i th (picks 0)) s.db th.ses q with
    | blocked => rw [he] at h; cases h
    | error e' =>
      rw [he] at h
      cases h
      exact ⟨s, th, Reach.refl, hi, rfl, th, q, k, picks 0, hi, hx, he⟩
    | ok r ses db =>
      rw [he] at h
      let th₁ : Thread R K W Req ε α := ⟨th.req, k r, ses, begunAfter s.clock th.begunAt q⟩
      let s₁ : Sys R Req ε α := { s with db := db, threads := s.threads.set i th₁ }
      have hstep : step S s (.run i (picks 0)) = some s₁ := by
        simp only [step, hi, hx, he]
        rfl
      have hi₁ : s₁.threads[i]? = some th₁ :=
        List.getElem?_set_self (List.getElem?_eq_some_iff.1 hi).1
      have hothers₁ : ∀ t ∈ s₁.others i, t.ses.tx = {} := by
        intro t ht
        rw [Sys.others, List.eraseIdx_set_eq] at ht
        exact hothers t ht
      have hbegun₁ : th₁.begunAt.getD s₁.clock = s₁.clock := by
        show (begunAfter s.clock th.begunAt q).getD s.clock = s.clock
        cases q with
        | now => exact hbegun
        | random => exact hbegun
        | commit => rfl
        | rollback => rfl
        | _ => exact hbegun
      have hrest : (k r).refusal (th₁.world s₁.db (still s₁.clock fun n => picks (n + 1))) =
          some e := h
      obtain ⟨s', th', hr, hi', hreq, href⟩ :=
        ih r hi₁ hothers₁ hbegun₁ rfl hrest
      exact ⟨s', th', (Reach.refl.tail hstep trivial).trans hr, hi', hreq, href⟩

end Store

end ReadCommitted
