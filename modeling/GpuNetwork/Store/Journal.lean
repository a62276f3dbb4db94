import GpuNetwork.Store.Soundness

/-!
# The journal of a run

Which transactions a run commits, in their order, and requests that are all or nothing:
what has not ended in an error is in the journal once, and what has is not in it.

* `journal` — the commits of a run; `db_of_journal`, `past_of_journal` — the store and
  what each thread has committed, read off it.
* `Prog.Settled`, `Prog.Atomic` — programs that only read once they have committed.
* `allOrNothing_of_reach` — what such programs have committed when they are answered.
-/

namespace ReadCommitted

variable {R K W Req ε α β : Type}

/-! ## The commits of a run -/

section Journal

variable [Schema R K W] [DecidableEq K] {S : Server R K W Req ε α} {s s' : Sys R Req ε α}
  {l : Label Req}

/-- What the step `l` commits. -/
def Sys.commits (s : Sys R Req ε α) (l : Label Req) : List (Nat × Tx R K W) :=
  ((s.committing l).map fun c => (c.1, c.2.ses.tx)).toList

/-- The transactions a run commits, each with the number of its thread. -/
def journal (S : Server R K W Req ε α) (s : Sys R Req ε α) : List (Label Req) →
    List (Nat × Tx R K W)
  | [] => []
  | l :: ls => s.commits l ++ (step S s l).elim [] fun s' => journal S s' ls

/-- The store after the transactions of a journal. -/
def replay (db : Db R) (entries : List (Nat × Tx R K W)) : Db R :=
  entries.foldl (fun db c => c.2.view db) db

/-- What thread `i` has committed. -/
def Sys.pastOf (s : Sys R Req ε α) (i : Nat) : List (Tx R K W) :=
  (s.threads[i]?).elim [] fun th => th.ses.past

omit [DecidableEq K] in
theorem commits_of_Commits {i : Nat} {th : Thread R K W Req ε α} (h : Commits s l i th) :
    s.commits l = [(i, th.ses.tx)] := by
  rw [Sys.commits, committing_eq_some_iff.2 h]
  rfl

omit [DecidableEq K] in
theorem commits_eq_nil (h : ∀ i th, ¬ Commits s l i th) : s.commits l = [] := by
  cases hc : s.committing l with
  | none => rw [Sys.commits, hc]; rfl
  | some c => exact absurd (committing_eq_some_iff.1 hc) (h c.1 c.2)

/-- The store changes only by what is committed. -/
theorem db_of_step (h : step S s l = some s') : s'.db = replay s.db (s.commits l) := by
  by_cases hc : ∃ i th, Commits s l i th
  · obtain ⟨i, th, hc⟩ := hc
    rw [commits_of_Commits hc, db_of_commits hc h]
    rfl
  · have hnone : ∀ i th, ¬ Commits s l i th := fun i th hi => hc ⟨i, th, hi⟩
    rw [commits_eq_nil hnone]
    rcases step_cases h with ⟨req, -, rfl⟩ | ⟨d, -, rfl⟩ | ⟨i, th, th', db, hi, -, hm, rfl⟩
    · rfl
    · rfl
    · cases hm with
      | runs hp he =>
        rcases exec_cases he with ⟨-, hdb, -⟩ | ⟨-, hdb, -⟩ | ⟨rfl, -, -⟩
        · exact hdb
        · exact hdb
        · exact absurd ⟨hi, ⟨_, hp⟩, _, rfl⟩ (hnone i th)
      | refused _ _ => rfl
      | closes _ => rfl

/-- A thread has committed what it had, and what it commits in this step. -/
theorem past_of_step (h : step S s l = some s') (i : Nat) :
    s'.pastOf i = s.pastOf i ++ ((s.commits l).filter (·.1 = i)).map (·.2) := by
  -- another thread's commit is not in the list
  have hother : ∀ j th, Commits s l j th → j ≠ i →
      ((s.commits l).filter (·.1 = i)).map (·.2) = [] := by
    intro j th hc hne
    rw [commits_of_Commits hc, List.filter_cons_of_neg (by simpa using hne)]
    rfl
  have hnone : (∀ th, ¬ Commits s l i th) → ((s.commits l).filter (·.1 = i)).map (·.2) = [] := by
    intro hno
    by_cases hc : ∃ j th, Commits s l j th
    · obtain ⟨j, th, hc⟩ := hc
      refine hother j th hc fun hji => ?_
      subst hji
      exact hno th hc
    · rw [commits_eq_nil fun j th hj => hc ⟨j, th, hj⟩]
      rfl
  cases hi : s'.threads[i]? with
  | none =>
    have hbefore : s.threads[i]? = none := by
      cases hb : s.threads[i]? with
      | none => rfl
      | some th =>
        obtain ⟨th', hth'⟩ := Spec.thread_after h hb
        rw [hi] at hth'
        cases hth'
    have hno : ∀ th, ¬ Commits s l i th := by
      rintro th ⟨hth, -, -⟩
      rw [hbefore] at hth
      cases hth
    rw [hnone hno, Sys.pastOf, Sys.pastOf, hi, hbefore]
    rfl
  | some th' =>
    rcases Spec.past_cases h hi with ⟨hbefore, hnil⟩ | ⟨th, hth, -, hsame | ⟨hc, hp⟩⟩
    · have hno : ∀ th, ¬ Commits s l i th := by
        rintro th ⟨hth, -, -⟩
        rw [hbefore] at hth
        cases hth
      rw [hnone hno, Sys.pastOf, Sys.pastOf, hi, hbefore]
      exact hnil
    · have hno : ∀ t, ¬ Commits s l i t := by
        intro t hc
        obtain ⟨t', ht', hses⟩ := thread_of_commits hc h
        obtain ⟨hst, -, -⟩ := hc
        rw [hth, Option.some.injEq] at hst
        subst hst
        rw [hi, Option.some.injEq] at ht'
        subst ht'
        rw [hses] at hsame
        exact absurd (congrArg List.length hsame) (by simp [Session.committed])
      rw [hnone hno, List.append_nil, Sys.pastOf, Sys.pastOf, hi, hth]
      exact hsame
    · rw [commits_of_Commits hc, Sys.pastOf, Sys.pastOf, hi, hth,
        List.filter_cons_of_pos (by simp)]
      exact hp

theorem replay_append (db : Db R) (a b : List (Nat × Tx R K W)) :
    replay db (a ++ b) = replay (replay db a) b :=
  List.foldl_append

/-- **The store is what the journal makes of the initial one.** -/
theorem db_of_journal {ls : List (Label Req)} (h : runFrom S s ls = some s') :
    s'.db = replay s.db (journal S s ls) := by
  induction ls generalizing s with
  | nil => cases h; rfl
  | cons l ls ih =>
    rw [runFrom_cons, Option.bind_eq_some_iff] at h
    obtain ⟨s₁, hs, hr⟩ := h
    rw [journal, hs, Option.elim_some, replay_append, ← db_of_step hs]
    exact ih hr

/-- What a thread has committed is its part of the journal. -/
theorem past_of_journal {ls : List (Label Req)} (h : runFrom S s ls = some s') (i : Nat) :
    s'.pastOf i = s.pastOf i ++ ((journal S s ls).filter (·.1 = i)).map (·.2) := by
  induction ls generalizing s with
  | nil => cases h; simp [journal]
  | cons l ls ih =>
    rw [runFrom_cons, Option.bind_eq_some_iff] at h
    obtain ⟨s₁, hs, hr⟩ := h
    rw [journal, hs, Option.elim_some, ih hr, past_of_step hs, List.filter_append,
      List.map_append, List.append_assoc]

end Journal

/-! ## All or nothing -/

namespace Prog

/-- What is left only reads, and raises none but the errors of `late`. -/
def Settled (late : ε → Prop) : Prog R K W ε α → Prop
  | .ret _ => True
  | .throw e => late e
  | .stmt q k => q.reads = true ∧ ∀ r, (k r).Settled late

/-- The program commits at most once; without a commit it returns only what is `idle`, and
after it is `Settled`. -/
def Atomic (late : ε → Prop) (idle : α → Prop) : Prog R K W ε α → Prop
  | .ret a => idle a
  | .throw _ => True
  | .stmt q k => ∀ r, (q = .commit → (k r).Settled late) ∧ (q ≠ .commit → (k r).Atomic late idle)

variable {late late' : ε → Prop} {idle : α → Prop}

@[simp] theorem settled_ret (a : α) : (.ret a : Prog R K W ε α).Settled late ↔ True := Iff.rfl

@[simp] theorem settled_throw (e : ε) : (.throw e : Prog R K W ε α).Settled late ↔ late e :=
  Iff.rfl

@[simp] theorem atomic_ret (a : α) : (.ret a : Prog R K W ε α).Atomic late idle ↔ idle a := Iff.rfl

@[simp] theorem atomic_throw (e : ε) : (.throw e : Prog R K W ε α).Atomic late idle ↔ True :=
  Iff.rfl

theorem settled_exec_bind {q : Stmt R K W} {f : q.Res → Prog R K W ε α} (hq : q.reads = true)
    (hf : ∀ r, (f r).Settled late) : (exec q >>= f).Settled late :=
  ⟨hq, hf⟩

theorem settled_bind {x : Prog R K W ε β} {f : β → Prog R K W ε α} (hx : x.Settled late)
    (hf : ∀ b, (f b).Settled late) : (x >>= f).Settled late := by
  induction x with
  | ret b => exact hf b
  | throw e => exact hx
  | stmt q k ih => exact ⟨hx.1, fun r => ih r (hx.2 r)⟩

/-- Up to its commit a program may issue any statements. -/
theorem atomic_bind {x : Prog R K W ε β} {f : β → Prog R K W ε α}
    (hx : x.Emits fun q => q ≠ .commit) (hf : ∀ b, (f b).Atomic late idle) :
    (x >>= f).Atomic late idle := by
  induction x with
  | ret b => exact hf b
  | throw e => trivial
  | stmt q k ih => exact fun r => ⟨fun he => absurd he hx.1, fun _ => ih r (hx.2 r)⟩

/-- A program may go on reading after one that commits. -/
theorem atomic_bind_settled (idle' : β → Prop) {x : Prog R K W ε β} {f : β → Prog R K W ε α}
    (hx : x.Atomic late idle') (hf : ∀ b, (f b).Settled late)
    (hidle : ∀ b, idle' b → (f b).Atomic late idle) : (x >>= f).Atomic late idle := by
  induction x with
  | ret b => exact hidle b hx
  | throw e => trivial
  | stmt q k ih =>
    exact fun r => ⟨fun he => settled_bind ((hx r).1 he) hf, fun hne => ih r ((hx r).2 hne)⟩

/-- A statement other than a commit. -/
theorem atomic_exec_bind {q : Stmt R K W} {f : q.Res → Prog R K W ε α} (hq : q ≠ .commit)
    (hf : ∀ r, (f r).Atomic late idle) : (exec q >>= f).Atomic late idle :=
  fun r => ⟨fun he => absurd he hq, fun _ => hf r⟩

/-- The commit. -/
theorem atomic_commit_bind {f : Unit → Prog R K W ε α} (hf : (f ()).Settled late) :
    (exec .commit >>= f).Atomic late idle :=
  fun _ => ⟨fun _ => hf, fun hne => absurd rfl hne⟩

/-- A program that only reads is all or nothing, whatever it answers. -/
theorem atomic_of_reads {x : Prog R K W ε α} (hx : x.Emits fun q => q.reads = true)
    (h : ∀ a, idle a) : x.Atomic late idle := by
  induction x with
  | ret a => exact h a
  | throw e => trivial
  | stmt q k ih =>
    refine fun r => ⟨fun he => ?_, fun _ => ih r (hx.2 r)⟩
    have hq := hx.1
    rw [he] at hq
    cases hq

end Prog

variable [Schema R K W] [DecidableEq K] {S : Server R K W Req ε α} {s s' s₀ : Sys R Req ε α}
  {l : Label Req} {late : Req → ε → Prop} {idle : Req → α → Prop}

/-- The thread has committed nothing yet and is all or nothing, or it has committed once. -/
def Thread.AllOrNothing (late : Req → ε → Prop) (idle : Req → α → Prop)
    (th : Thread R K W Req ε α) : Prop :=
  (th.ses.past = [] ∧ th.prog.Atomic (late th.req) (idle th.req)) ∨
    ∃ tx, th.ses.past = [tx] ∧ th.prog.Settled (late th.req)

/-- **The step lemma.** -/
theorem Moves.allOrNothing (hlate : ∀ req e, late req (S.sqlError e)) {i : Nat} {db : Db R}
    {th th' : Thread R K W Req ε α} (h : th.AllOrNothing late idle)
    (hm : Moves S s i th l db th') : th'.AllOrNothing late idle := by
  cases hm with
  | runs hp he =>
    rename_i pick q k r ses b
    rcases h with ⟨hpast, hatomic⟩ | ⟨tx, hpast, hsettled⟩
    · rw [hp] at hatomic
      rcases exec_cases he with ⟨hne, -, hg⟩ | ⟨rfl, -, rfl⟩ | ⟨rfl, -, rfl⟩
      · refine Or.inl ⟨?_, (hatomic r).2 hne⟩
        cases hg with
        | same => exact hpast
        | takes _ _ => exact hpast
      · exact Or.inl ⟨hpast, (hatomic r).2 (by simp)⟩
      · refine Or.inr ⟨th.ses.tx, ?_, (hatomic r).1 rfl⟩
        rw [show th.ses.committed.past = th.ses.past ++ [th.ses.tx] from rfl, hpast]
        rfl
    · rw [hp] at hsettled
      obtain ⟨hreads, hrest⟩ := hsettled
      refine Or.inr ⟨tx, ?_, hrest r⟩
      rcases exec_cases he with ⟨-, -, hg⟩ | ⟨rfl, -, rfl⟩ | ⟨rfl, -, rfl⟩
      · cases hg with
        | same => exact hpast
        | takes _ _ => exact hpast
      · exact hpast
      · cases hreads
  | refused hp hr =>
    rcases h with ⟨hpast, -⟩ | ⟨tx, hpast, -⟩
    · exact Or.inl ⟨hpast, trivial⟩
    · exact Or.inr ⟨tx, hpast, hlate _ _⟩
  | closes hf => exact h

theorem allOrNothing_step (hhandle : ∀ req, (S.handle req).Atomic (late req) (idle req))
    (hlate : ∀ req e, late req (S.sqlError e)) (hs : step S s l = some s')
    (h : ∀ (i : Nat) (th : Thread R K W Req ε α), s.threads[i]? = some th →
      th.AllOrNothing late idle) {i : Nat} {th : Thread R K W Req ε α}
    (hi : s'.threads[i]? = some th) : th.AllOrNothing late idle := by
  rcases step_cases hs with ⟨req, -, rfl⟩ | ⟨d, -, rfl⟩ | ⟨j, tj, tj', db, hj, -, hm, rfl⟩
  · rcases getElem?_concat_cases hi with hi | ⟨-, rfl⟩
    · exact h i th hi
    · exact Or.inl ⟨rfl, hhandle req⟩
  · exact h i th hi
  · rcases getElem?_set_cases hi with ⟨-, rfl⟩ | ⟨-, hold⟩
    · exact hm.allOrNothing hlate (h j tj hj)
    · exact h i th hold

/-- **All or nothing**, in every reachable state. -/
theorem allOrNothing_of_reach (hhandle : ∀ req, (S.handle req).Atomic (late req) (idle req))
    (hlate : ∀ req e, late req (S.sqlError e)) {T : Terms R Req ε α} (h₀ : s₀.threads = [])
    (h : Reach S T s₀ s) {i : Nat} {th : Thread R K W Req ε α} (hi : s.threads[i]? = some th) :
    th.AllOrNothing late idle :=
  h.invariant (fun s => ∀ (i : Nat) (th : Thread R K W Req ε α), s.threads[i]? = some th →
      th.AllOrNothing late idle)
    (fun _ _ _ hI hs _ _ _ hi => allOrNothing_step hhandle hlate hs hI hi)
    (fun i th hi => by simp [h₀] at hi) i th hi

end ReadCommitted
