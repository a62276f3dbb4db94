import GpuNetwork.Store.Session
import Mathlib.Logic.Relation

/-!
# Interleavings

A server answers any number of requests at once.  Each request is a thread: the
program of its handler and its database session.  A step runs one statement of
one thread, admits a new request, lets the clock advance, or kills the statement
a thread is at.  `Reach` is every state some order of such steps leads to; a run
can be asked to keep a promise (`Terms`) about each of its steps.

* `step`, `runFrom` — one step and a run, as functions, so that a concrete
  schedule can be evaluated.
* `Reach`, `Reach.of_runFrom` — the reachable states, and that a run stays
  among them.
* `Along` — every step of a run keeps the terms.
* `OnCommits` — promises about commits; `runWhile`, `runChecked` evaluate a run that keeps
  a promise.
* `LocksFree` — no two sessions hold locks against each other, and every session
  has locked what it will write; `locksFree_step` keeps it, and `frame_step` reads
  off what it is for.
-/

namespace ReadCommitted

open Relation

variable {R K W Req ε α : Type}

/-- A server: the program that handles a request, and how a refused statement
surfaces in it. -/
structure Server (R K W Req ε α : Type) where
  handle : Req → Prog R K W ε α
  sqlError : SqlError → ε

/-- A request that is being handled. -/
structure Thread (R K W Req ε α : Type) [Schema R K W] where
  req : Req
  /-- What is left of its program. -/
  prog : Prog R K W ε α
  ses : Session R K W
  /-- When its open transaction began. -/
  begunAt : Option Time

/-- The state of the server and its database. -/
structure Sys (R : Type) {K W : Type} (Req ε α : Type) [Schema R K W] where
  db : Db R
  clock : Time
  threads : List (Thread R K W Req ε α)

/-- What happens next. -/
inductive Label (Req : Type) where
  /-- A request arrives. -/
  | spawn (req : Req)
  /-- Thread `i` runs its next statement; `pick` resolves what it leaves open.  A
  thread that has answered closes its session. -/
  | run (i pick : Nat)
  /-- The statement thread `i` is at fails. -/
  | abort (i : Nat)
  /-- The clock moves on. -/
  | tick (d : Nat)
  deriving DecidableEq

variable [Schema R K W] [DecidableEq K]

namespace Sys

/-- The threads other than `i`. -/
def others (s : Sys R Req ε α) (i : Nat) : List (Thread R K W Req ε α) := s.threads.eraseIdx i

/-- The rows a session has inserted and not committed. -/
def inserted (tx : Tx R K W) : List R :=
  tx.writes.filterMap fun w => match w with | .insert r => some r | _ => none

/-- What a statement of thread `i` finds around it. -/
def env (s : Sys R Req ε α) (i : Nat) (th : Thread R K W Req ε α) (pick : Nat) : Env R K where
  held := (s.others i).flatMap fun t => t.ses.tx.locks
  inflight := (s.others i).flatMap fun t => inserted t.ses.tx
  now := s.clock
  begunAt := th.begunAt.getD s.clock
  pick := pick

end Sys

/-- The start of the transaction after a statement. -/
def begunAfter (now : Time) (begunAt : Option Time) : Stmt R K W → Option Time
  | .now => begunAt
  | .random => begunAt
  | .commit => none
  | .rollback => none
  | _ => some (begunAt.getD now)

variable (S : Server R K W Req ε α)

/-- One step; `none` when it cannot be taken. -/
def step (s : Sys R Req ε α) : Label Req → Option (Sys R Req ε α)
  | .spawn req => some { s with threads := s.threads ++ [⟨req, S.handle req, {}, none⟩] }
  | .tick d => some { s with clock := s.clock + d }
  | .run i pick =>
    match s.threads[i]? with
    | none => none
    | some th =>
      match th.prog with
      | .stmt q k =>
        match exec (s.env i th pick) s.db th.ses q with
        | .blocked => none
        | .error e =>
          some { s with threads :=
            s.threads.set i ⟨th.req, .throw (S.sqlError e), th.ses.reset, none⟩ }
        | .ok r ses db =>
          some { s with
            db := db
            threads := s.threads.set i ⟨th.req, k r, ses, begunAfter s.clock th.begunAt q⟩ }
      | p => some { s with threads := s.threads.set i ⟨th.req, p, th.ses.reset, none⟩ }
  | .abort i =>
    match s.threads[i]? with
    | none => none
    | some th =>
      match th.prog with
      | .stmt _ _ =>
        some { s with threads :=
          s.threads.set i ⟨th.req, .throw (S.sqlError .aborted), th.ses.reset, none⟩ }
      | _ => none

/-- Take a list of steps; `none` as soon as one cannot be taken. -/
def runFrom (s : Sys R Req ε α) : List (Label Req) → Option (Sys R Req ε α)
  | [] => some s
  | l :: ls => (step S s l).bind fun s' => runFrom s' ls

@[simp] theorem runFrom_nil (s : Sys R Req ε α) : runFrom S s [] = some s := rfl

theorem runFrom_cons (s : Sys R Req ε α) (l : Label Req) (ls : List (Label Req)) :
    runFrom S s (l :: ls) = (step S s l).bind fun s' => runFrom S s' ls := rfl

theorem runFrom_append (s : Sys R Req ε α) (ls ms : List (Label Req)) :
    runFrom S s (ls ++ ms) = (runFrom S s ls).bind fun s' => runFrom S s' ms := by
  induction ls generalizing s with
  | nil => simp
  | cons l ls ih =>
    rw [List.cons_append, runFrom_cons, runFrom_cons]
    cases step S s l with
    | none => rfl
    | some s' => exact ih s'

/-! ## Reachable states -/

/-- What a run may promise about each of its steps. -/
abbrev Terms (R : Type) {K W : Type} (Req ε α : Type) [Schema R K W] :=
  Sys R Req ε α → Label Req → Sys R Req ε α → Prop

/-- A step that keeps the terms. -/
def Trans (T : Terms R Req ε α) (s s' : Sys R Req ε α) : Prop :=
  ∃ l, step S s l = some s' ∧ T s l s'

/-- `s` can be reached from `s₀` by steps that keep the terms. -/
def Reach (T : Terms R Req ε α) (s₀ s : Sys R Req ε α) : Prop := ReflTransGen (Trans S T) s₀ s

/-- No promise at all. -/
def anyTerms : Terms R Req ε α := fun _ _ _ => True

variable {S}

theorem Reach.refl {T : Terms R Req ε α} {s : Sys R Req ε α} : Reach S T s s := ReflTransGen.refl

theorem Reach.tail {T : Terms R Req ε α} {s₀ s s' : Sys R Req ε α} (h : Reach S T s₀ s)
    {l : Label Req} (hs : step S s l = some s') (ht : T s l s') : Reach S T s₀ s' :=
  ReflTransGen.tail h ⟨l, hs, ht⟩

theorem Reach.trans {T : Terms R Req ε α} {s₀ s₁ s₂ : Sys R Req ε α} (h : Reach S T s₀ s₁)
    (h' : Reach S T s₁ s₂) : Reach S T s₀ s₂ :=
  ReflTransGen.trans h h'

theorem Reach.mono {T T' : Terms R Req ε α} (hT : ∀ s l s', T s l s' → T' s l s')
    {s₀ s : Sys R Req ε α} (h : Reach S T s₀ s) : Reach S T' s₀ s := by
  induction h with
  | refl => exact Reach.refl
  | tail _ hs ih =>
    obtain ⟨l, hs, ht⟩ := hs
    exact ih.tail hs (hT _ _ _ ht)

/-- A run only passes through reachable states. -/
theorem Reach.of_runFrom {s s' : Sys R Req ε α} {ls : List (Label Req)}
    (h : runFrom S s ls = some s') : Reach S anyTerms s s' := by
  induction ls generalizing s with
  | nil => cases h; exact Reach.refl
  | cons l ls ih =>
    rw [runFrom_cons, Option.bind_eq_some_iff] at h
    obtain ⟨s₁, hs, hr⟩ := h
    exact Reach.trans (Reach.tail Reach.refl hs trivial) (ih hr)

/-- **The invariant rule.**  What holds at the start and is kept by every step that
keeps the terms holds in every reachable state. -/
theorem Reach.invariant {T : Terms R Req ε α} (I : Sys R Req ε α → Prop)
    (hstep : ∀ s l s', I s → step S s l = some s' → T s l s' → I s')
    {s₀ s : Sys R Req ε α} (h₀ : I s₀) (h : Reach S T s₀ s) : I s := by
  induction h with
  | refl => exact h₀
  | tail _ hs ih =>
    obtain ⟨l, hs, ht⟩ := hs
    exact hstep _ l _ ih hs ht

/-- Every step of a run keeps the terms. -/
def Along (S : Server R K W Req ε α) (T : Terms R Req ε α) :
    Sys R Req ε α → List (Label Req) → Prop
  | _, [] => True
  | s, l :: ls => ∀ s', step S s l = some s' → T s l s' ∧ Along S T s' ls

/-- Two promises that come to the same at every reachable state of an invariant that the
first one keeps come to the same along every run. -/
theorem along_congr {T T' : Terms R Req ε α} (I : Sys R Req ε α → Prop) {s₀ : Sys R Req ε α}
    (h₀ : I s₀) (hI : ∀ s l s', I s → step S s l = some s' → T s l s' → I s')
    (h : ∀ s l s', Reach S anyTerms s₀ s → I s → step S s l = some s' → (T s l s' ↔ T' s l s'))
    (ls : List (Label Req)) : Along S T s₀ ls ↔ Along S T' s₀ ls := by
  suffices ∀ s, Reach S anyTerms s₀ s → I s → (Along S T s ls ↔ Along S T' s ls) from
    this s₀ Reach.refl h₀
  induction ls with
  | nil => exact fun s _ _ => Iff.rfl
  | cons l ls ih =>
    intro s hr hs
    refine forall_congr' fun s' => forall_congr' fun hst => ?_
    have hstep := h s l s' hr hs hst
    constructor
    · rintro ⟨ht, hrest⟩
      exact ⟨hstep.1 ht, (ih s' (hr.tail hst trivial) (hI s l s' hs hst ht)).1 hrest⟩
    · rintro ⟨ht, hrest⟩
      have ht' := hstep.2 ht
      exact ⟨ht', (ih s' (hr.tail hst trivial) (hI s l s' hs hst ht')).2 hrest⟩

/-- What a run keeps it has kept so far. -/
theorem Along.take {T : Terms R Req ε α} {s : Sys R Req ε α} {ls ms : List (Label Req)}
    (h : Along S T s (ls ++ ms)) : Along S T s ls := by
  induction ls generalizing s with
  | nil => trivial
  | cons l ls ih => exact fun s' hs => ⟨(h s' hs).1, ih (h s' hs).2⟩

/-- A step in the middle of a run that keeps the terms keeps them. -/
theorem Along.at_step {T : Terms R Req ε α} {s s₁ s₂ : Sys R Req ε α} {l : Label Req}
    {ls ms : List (Label Req)} (h : Along S T s (ls ++ l :: ms)) (h₁ : runFrom S s ls = some s₁)
    (h₂ : step S s₁ l = some s₂) : T s₁ l s₂ := by
  induction ls generalizing s with
  | nil => cases h₁; exact (h s₂ h₂).1
  | cons m ls ih =>
    rw [runFrom_cons, Option.bind_eq_some_iff] at h₁
    obtain ⟨s', hs, hr⟩ := h₁
    exact ih (h s' hs).2 hr

/-- The last step of a run that keeps the terms keeps them. -/
theorem Along.last {T : Terms R Req ε α} {s s₁ s₂ : Sys R Req ε α} {l : Label Req}
    {ls : List (Label Req)} (h : Along S T s (ls ++ [l])) (h₁ : runFrom S s ls = some s₁)
    (h₂ : runFrom S s (ls ++ [l]) = some s₂) : T s₁ l s₂ := by
  rw [runFrom_append, h₁, Option.bind_some, runFrom_cons, Option.bind_eq_some_iff] at h₂
  obtain ⟨s', hs, he⟩ := h₂
  cases he
  exact h.at_step h₁ hs

/-- What is so along the way may be promised as well. -/
theorem Reach.strengthen {T : Terms R Req ε α} (I : Sys R Req ε α → Prop)
    (hstep : ∀ s l s', I s → step S s l = some s' → T s l s' → I s')
    {s₀ s : Sys R Req ε α} (h₀ : I s₀) (h : Reach S T s₀ s) :
    Reach S (fun s l s' => T s l s' ∧ I s) s₀ s ∧ I s := by
  induction h with
  | refl => exact ⟨Reach.refl, h₀⟩
  | tail _ hs ih =>
    obtain ⟨l, hs, ht⟩ := hs
    exact ⟨ih.1.tail hs ⟨ht, ih.2⟩, hstep _ l _ ih.2 hs ht⟩

/-- Only requests of one kind arrive. -/
def Admits (A : Req → Prop) : Terms R Req ε α := fun _ l _ => ∀ req, l = .spawn req → A req

/-! ## What a step can do -/

/-- Thread `i` commits in the step `l`. -/
def Commits (s : Sys R Req ε α) (l : Label Req) (i : Nat) (th : Thread R K W Req ε α) : Prop :=
  s.threads[i]? = some th ∧ (∃ k, th.prog = .stmt .commit k) ∧ ∃ pick, l = .run i pick

/-- A promise about the commits of a run: what holds of thread `i` when it commits. -/
def OnCommits (C : Sys R Req ε α → Nat → Thread R K W Req ε α → Prop) : Terms R Req ε α :=
  fun s l _ => ∀ i th, Commits s l i th → C s i th

/-- In the step `l` the database refuses a statement. -/
def Refuses (s : Sys R Req ε α) (l : Label Req) : Prop :=
  (∃ i, l = .abort i) ∨ ∃ (i pick : Nat) (th : Thread R K W Req ε α) (q : Stmt R K W)
    (k : q.Res → Prog R K W ε α) (e : SqlError), l = .run i pick ∧ s.threads[i]? = some th ∧
    th.prog = .stmt q k ∧ exec (s.env i th pick) s.db th.ses q = .error e

/-- What thread `i` can do next: run its statement, fail at it, or close. -/
inductive Moves (S : Server R K W Req ε α) (s : Sys R Req ε α) (i : Nat)
    (th : Thread R K W Req ε α) : Label Req → Db R → Thread R K W Req ε α → Prop
  | runs {pick : Nat} {q : Stmt R K W} {k : q.Res → Prog R K W ε α} {r : q.Res}
      {ses : Session R K W} {db : Db R} {b : Option Time} : th.prog = .stmt q k →
      exec (s.env i th pick) s.db th.ses q = .ok r ses db →
      Moves S s i th (.run i pick) db ⟨th.req, k r, ses, b⟩
  | refused {l : Label Req} {q : Stmt R K W} {k : q.Res → Prog R K W ε α} {e : SqlError} :
      th.prog = .stmt q k → Refuses s l →
      Moves S s i th l s.db ⟨th.req, .throw (S.sqlError e), th.ses.reset, none⟩
  | closes {l : Label Req} : th.prog.Finished = true →
      Moves S s i th l s.db ⟨th.req, th.prog, th.ses.reset, none⟩

theorem Moves.req_eq {s : Sys R Req ε α} {i : Nat} {l : Label Req} {db : Db R}
    {th th' : Thread R K W Req ε α} (h : Moves S s i th l db th') : th'.req = th.req := by
  cases h <;> rfl

/-- **The cases of a step.**  A request arrives, the clock moves on, or one thread
moves while the others stay as they are. -/
theorem step_cases {s s' : Sys R Req ε α} {l : Label Req} (h : step S s l = some s') :
    (∃ req, l = .spawn req ∧
      s' = { s with threads := s.threads ++ [⟨req, S.handle req, {}, none⟩] }) ∨
    (∃ d, l = .tick d ∧ s' = { s with clock := s.clock + d }) ∨
    ∃ i th th' db, s.threads[i]? = some th ∧ ((∃ pick, l = .run i pick) ∨ l = .abort i) ∧
      Moves S s i th l db th' ∧ s' = { s with db := db, threads := s.threads.set i th' } := by
  cases l with
  | spawn req => cases h; exact Or.inl ⟨req, rfl, rfl⟩
  | tick d => cases h; exact Or.inr (Or.inl ⟨d, rfl, rfl⟩)
  | run i pick =>
    refine Or.inr (Or.inr ?_)
    simp only [step] at h
    split at h
    · exact absurd h (by simp)
    · rename_i th hth
      split at h
      · rename_i q k hp
        split at h
        · exact absurd h (by simp)
        · rename_i e he
          cases h
          exact ⟨i, th, _, _, hth, Or.inl ⟨pick, rfl⟩,
            Moves.refused hp (Or.inr ⟨i, pick, th, q, k, e, rfl, hth, hp, he⟩), rfl⟩
        · rename_i r ses db he
          cases h
          exact ⟨i, th, _, _, hth, Or.inl ⟨pick, rfl⟩, Moves.runs hp he, rfl⟩
      · rename_i hp
        cases h
        refine ⟨i, th, _, _, hth, Or.inl ⟨pick, rfl⟩, Moves.closes ?_, rfl⟩
        cases hprog : th.prog with
        | stmt q k => exact absurd hprog (hp q k)
        | ret a => rfl
        | throw e => rfl
  | abort i =>
    refine Or.inr (Or.inr ?_)
    simp only [step] at h
    split at h
    · exact absurd h (by simp)
    · rename_i th hth
      split at h
      · rename_i q k hp
        cases h
        exact ⟨i, th, _, _, hth, Or.inr rfl, Moves.refused hp (Or.inl ⟨i, rfl⟩), rfl⟩
      · exact absurd h (by simp)

/-- What is in a list after one entry was replaced. -/
theorem getElem?_set_cases {β : Type} {l : List β} {i j : Nat} {a b : β}
    (h : (l.set i a)[j]? = some b) : (j = i ∧ b = a) ∨ (j ≠ i ∧ l[j]? = some b) := by
  rw [List.getElem?_set] at h
  split at h
  · rename_i hij
    split at h
    · cases h; exact Or.inl ⟨hij.symm, rfl⟩
    · cases h
  · rename_i hij
    exact Or.inr ⟨Ne.symm hij, h⟩

/-- What is in a list after one entry was added at its end. -/
theorem getElem?_concat_cases {β : Type} {l : List β} {j : Nat} {a b : β}
    (h : (l ++ [a])[j]? = some b) : l[j]? = some b ∨ (j = l.length ∧ b = a) := by
  rw [List.getElem?_append] at h
  split at h
  · exact Or.inl h
  · rename_i hj
    rw [List.getElem?_singleton] at h
    split at h
    · rename_i hz
      cases h
      exact Or.inr ⟨by omega, rfl⟩
    · cases h

/-- Where only requests of one kind arrive, all threads are of that kind. -/
theorem Reach.admitted {T : Terms R Req ε α} {A : Req → Prop}
    (hT : ∀ s l s', T s l s' → Admits A s l s') {s₀ s : Sys R Req ε α} (h₀ : s₀.threads = [])
    (h : Reach S T s₀ s) :
    Reach S (fun s l s' => T s l s' ∧ ∀ (i : Nat) (th : Thread R K W Req ε α),
      s.threads[i]? = some th → A th.req) s₀ s ∧
    ∀ (i : Nat) (th : Thread R K W Req ε α), s.threads[i]? = some th → A th.req := by
  refine h.strengthen (fun s => ∀ (i : Nat) (th : Thread R K W Req ε α),
    s.threads[i]? = some th → A th.req) (fun s l s' hI hs ht => ?_)
    (fun i th hi => by simp [h₀] at hi)
  rcases step_cases hs with ⟨req, rfl, rfl⟩ | ⟨d, -, rfl⟩ | ⟨i, th, th', db, hi, -, hm, rfl⟩
  · intro j t hj
    rcases getElem?_concat_cases hj with hj | ⟨-, rfl⟩
    · exact hI j t hj
    · exact hT _ _ _ ht req rfl
  · exact hI
  · intro j t hj
    rcases getElem?_set_cases hj with ⟨-, rfl⟩ | ⟨-, hold⟩
    · rw [hm.req_eq]; exact hI i th hi
    · exact hI j t hold

/-- A commit puts the writes of its transaction into the store. -/
theorem db_of_commits {s s' : Sys R Req ε α} {l : Label Req} {i : Nat}
    {th : Thread R K W Req ε α} (hc : Commits s l i th) (h : step S s l = some s') :
    s'.db = th.ses.tx.view s.db := by
  obtain ⟨hi, ⟨k, hp⟩, pick, rfl⟩ := hc
  simp only [step, hi, hp, exec, Option.some.injEq] at h
  rw [← h]

/-- A thread that commits goes on with an empty transaction. -/
theorem thread_of_commits {s s' : Sys R Req ε α} {l : Label Req} {i : Nat}
    {th : Thread R K W Req ε α} (hc : Commits s l i th) (h : step S s l = some s') :
    ∃ th', s'.threads[i]? = some th' ∧ th'.ses = th.ses.committed := by
  obtain ⟨hi, ⟨k, hp⟩, pick, rfl⟩ := hc
  have hlt := (List.getElem?_eq_some_iff.1 hi).1
  simp only [step, hi, hp, exec, Option.some.injEq] at h
  rw [← h]
  exact ⟨_, List.getElem?_set_self hlt, rfl⟩

/-! ## Checked runs -/

/-- The thread that commits in the step `l`. -/
def Sys.committing (s : Sys R Req ε α) : Label Req → Option (Nat × Thread R K W Req ε α)
  | .run i _ =>
    match s.threads[i]? with
    | none => none
    | some th =>
      match th.prog with
      | .stmt .commit _ => some (i, th)
      | _ => none
  | _ => none

omit [DecidableEq K] in
theorem committing_eq_some_iff {s : Sys R Req ε α} {l : Label Req} {i : Nat}
    {th : Thread R K W Req ε α} : s.committing l = some (i, th) ↔ Commits s l i th := by
  constructor
  · intro h
    unfold Sys.committing at h
    split at h
    · rename_i j pick
      split at h
      · cases h
      · rename_i t ht
        split at h
        · rename_i k hp
          cases h
          exact ⟨ht, ⟨k, hp⟩, pick, rfl⟩
        · cases h
    · cases h
  · rintro ⟨hi, ⟨k, hp⟩, pick, rfl⟩
    simp only [Sys.committing, hi, hp]

/-- The step `l` is no commit, or one that passes the check. -/
def passes (c : Sys R Req ε α → Nat → Thread R K W Req ε α → Bool) (s : Sys R Req ε α)
    (l : Label Req) : Bool :=
  (s.committing l).all fun x => c s x.1 x.2

omit [DecidableEq K] in
theorem passes_sound {c : Sys R Req ε α → Nat → Thread R K W Req ε α → Bool}
    {s : Sys R Req ε α} {l : Label Req} (h : passes c s l = true) {i : Nat}
    {th : Thread R K W Req ε α} (hc : Commits s l i th) : c s i th = true := by
  rw [passes, committing_eq_some_iff.2 hc] at h
  exact h

/-- In the step `l` the database refuses a statement, as a check. -/
def Sys.refuses (s : Sys R Req ε α) : Label Req → Bool
  | .run i pick =>
    match s.threads[i]? with
    | none => false
    | some th =>
      match th.prog with
      | .stmt q _ =>
        match exec (s.env i th pick) s.db th.ses q with
        | .error _ => true
        | _ => false
      | _ => false
  | .abort _ => true
  | _ => false

theorem refuses_of_Refuses {s : Sys R Req ε α} {l : Label Req} (h : Refuses s l) :
    s.refuses l = true := by
  rcases h with ⟨i, rfl⟩ | ⟨i, pick, th, q, k, e, rfl, hi, hp, he⟩
  · rfl
  · simp only [Sys.refuses, hi, hp, he]

/-- A run whose steps are checked on the way. -/
def runWhile (S : Server R K W Req ε α) (t : Sys R Req ε α → Label Req → Bool)
    (s : Sys R Req ε α) : List (Label Req) → Option (Sys R Req ε α)
  | [] => some s
  | l :: ls => if t s l then (step S s l).bind fun s' => runWhile S t s' ls else none

/-- A run whose commits are checked on the way. -/
def runChecked (S : Server R K W Req ε α)
    (c : Sys R Req ε α → Nat → Thread R K W Req ε α → Bool) (s : Sys R Req ε α)
    (ls : List (Label Req)) : Option (Sys R Req ε α) := runWhile S (passes c) s ls

/-- **A checked run takes no other steps than its own, and each passes the check.** -/
theorem Reach.of_runWhile {t : Sys R Req ε α → Label Req → Bool} {s s' : Sys R Req ε α}
    {ls : List (Label Req)} (h : runWhile S t s ls = some s') :
    Reach S (fun s l _ => t s l = true ∧ l ∈ ls) s s' := by
  induction ls generalizing s with
  | nil => cases h; exact Reach.refl
  | cons l ls ih =>
    rw [runWhile] at h
    split at h
    · rename_i ht
      obtain ⟨s₁, hs, hr⟩ := Option.bind_eq_some_iff.1 h
      exact Reach.trans (Reach.tail Reach.refl hs ⟨ht, List.mem_cons_self ..⟩)
        ((ih hr).mono fun s m s' hm => ⟨hm.1, List.mem_cons_of_mem _ hm.2⟩)
    · cases h

theorem along_of_runWhile {t : Sys R Req ε α → Label Req → Bool} {s s' : Sys R Req ε α}
    {ls : List (Label Req)} (h : runWhile S t s ls = some s') :
    Along S (fun s l _ => t s l = true) s ls := by
  induction ls generalizing s with
  | nil => trivial
  | cons l ls ih =>
    rw [runWhile] at h
    split at h
    · rename_i ht
      obtain ⟨s₁, hs, hr⟩ := Option.bind_eq_some_iff.1 h
      intro s₂ hs₂
      rw [hs, Option.some.injEq] at hs₂
      exact ⟨ht, hs₂ ▸ ih hr⟩
    · cases h

theorem Along.mono {T T' : Terms R Req ε α} (hT : ∀ s l s', T s l s' → T' s l s')
    {s : Sys R Req ε α} {ls : List (Label Req)} (h : Along S T s ls) : Along S T' s ls := by
  induction ls generalizing s with
  | nil => trivial
  | cons l ls ih => exact fun s' hs => ⟨hT _ _ _ (h s' hs).1, ih (h s' hs).2⟩

omit [DecidableEq K] in
theorem onCommits_of_passes {C : Sys R Req ε α → Nat → Thread R K W Req ε α → Prop}
    [∀ s i th, Decidable (C s i th)] {s s' : Sys R Req ε α} {l : Label Req}
    (h : passes (fun s i th => decide (C s i th)) s l = true) : OnCommits C s l s' :=
  fun _ _ hc => of_decide_eq_true (passes_sound h hc)

/-- A run whose commits are checked keeps the promise they were checked for. -/
theorem Reach.of_runChecked {C : Sys R Req ε α → Nat → Thread R K W Req ε α → Prop}
    [∀ s i th, Decidable (C s i th)] {s s' : Sys R Req ε α} {ls : List (Label Req)}
    (h : runChecked S (fun s i th => decide (C s i th)) s ls = some s') :
    Reach S (fun s l s' => OnCommits C s l s' ∧ l ∈ ls) s s' :=
  (Reach.of_runWhile h).mono fun _ _ _ ht => ⟨onCommits_of_passes ht.1, ht.2⟩

theorem along_of_runChecked {C : Sys R Req ε α → Nat → Thread R K W Req ε α → Prop}
    [∀ s i th, Decidable (C s i th)] {s s' : Sys R Req ε α} {ls : List (Label Req)}
    (h : runChecked S (fun s i th => decide (C s i th)) s ls = some s') :
    Along S (OnCommits C) s ls :=
  (along_of_runWhile h).mono fun _ _ _ ht => onCommits_of_passes ht

/-! ## Locks along a run -/

/-- Every session has locked what it will write, and no two sessions hold locks
against each other. -/
structure LocksFree (s : Sys R Req ε α) : Prop where
  covered : ∀ (i : Nat) (th : Thread R K W Req ε α), s.threads[i]? = some th → th.ses.tx.Covered
  free : ∀ (i j : Nat) (ti tj : Thread R K W Req ε α), i ≠ j →
    s.threads[i]? = some ti → s.threads[j]? = some tj →
    ∀ a ∈ ti.ses.tx.locks, ∀ b ∈ tj.ses.tx.locks, a.conflicts b = false

omit [DecidableEq K] in
theorem mem_held {s : Sys R Req ε α} {i j : Nat} {ti tj : Thread R K W Req ε α} {pick : Nat}
    (hij : j ≠ i) (hj : s.threads[j]? = some tj) {l : Lock K} (hl : l ∈ tj.ses.tx.locks) :
    l ∈ (s.env i ti pick).held := by
  refine List.mem_flatMap.2 ⟨tj, ?_, hl⟩
  exact List.mem_eraseIdx_iff_getElem?.2 ⟨j, hij, hj⟩

/-- A thread that moves stays covered, and takes no lock against another's. -/
theorem Moves.locks {s : Sys R Req ε α} {i : Nat} {l : Label Req} {db : Db R}
    {th th' : Thread R K W Req ε α} (h : Moves S s i th l db th') :
    (th.ses.tx.Covered → th'.ses.tx.Covered) ∧
    ∀ a ∈ th'.ses.tx.locks, a ∈ th.ses.tx.locks ∨ ∀ (j : Nat) (tj : Thread R K W Req ε α), j ≠ i →
      s.threads[j]? = some tj → ∀ b ∈ tj.ses.tx.locks, a.conflicts b = false := by
  cases h with
  | runs _ he =>
    refine ⟨exec_covered he, fun a ha => ?_⟩
    rcases exec_locks he a ha with ha | ha
    · exact Or.inl ha
    · exact Or.inr fun j tj hij hj b hb => ha b (mem_held hij hj hb)
  | refused _ _ => exact ⟨fun _ => covered_empty, fun a ha => by simp at ha⟩
  | closes _ => exact ⟨fun _ => covered_empty, fun a ha => by simp at ha⟩

theorem locksFree_step {s s' : Sys R Req ε α} {l : Label Req} (hs : LocksFree s)
    (h : step S s l = some s') : LocksFree s' := by
  rcases step_cases h with ⟨req, -, rfl⟩ | ⟨d, -, rfl⟩ | ⟨i, th, th', db, hi, -, hm, rfl⟩
  · -- the new thread has no locks and no writes
    refine ⟨fun j t hj => ?_, fun j j' t t' hjj hj hj' a ha b hb => ?_⟩
    · rcases getElem?_concat_cases hj with hj | ⟨-, rfl⟩
      · exact hs.covered j t hj
      · intro w hw; simp at hw
    · rcases getElem?_concat_cases hj with hj | ⟨-, rfl⟩
      · rcases getElem?_concat_cases hj' with hj' | ⟨-, rfl⟩
        · exact hs.free j j' t t' hjj hj hj' a ha b hb
        · simp at hb
      · simp at ha
  · exact ⟨hs.covered, hs.free⟩
  · obtain ⟨hcov, hlock⟩ := hm.locks
    -- a lock of the moving thread against one of another thread
    have hcross : ∀ j t, j ≠ i → s.threads[j]? = some t → ∀ a ∈ th'.ses.tx.locks,
        ∀ b ∈ t.ses.tx.locks, a.conflicts b = false := by
      intro j t hj ht a ha b hb
      rcases hlock a ha with ha | ha
      · exact hs.free i j th t (Ne.symm hj) hi ht a ha b hb
      · exact ha j t hj ht b hb
    refine ⟨fun j t hj => ?_, fun j j' t t' hjj hj hj' a ha b hb => ?_⟩
    · rcases getElem?_set_cases hj with ⟨-, rfl⟩ | ⟨-, hold⟩
      · exact hcov (hs.covered i th hi)
      · exact hs.covered j t hold
    · rcases getElem?_set_cases hj with ⟨hji, rfl⟩ | ⟨hji, hold⟩
      · rcases getElem?_set_cases hj' with ⟨hji', -⟩ | ⟨hji', hold'⟩
        · exact absurd (hji.trans hji'.symm) hjj
        · exact hcross j' t' hji' hold' a ha b hb
      · rcases getElem?_set_cases hj' with ⟨-, rfl⟩ | ⟨-, hold'⟩
        · rw [Lock.conflicts_comm]
          exact hcross j t hji hold b hb a ha
        · exact hs.free j j' t t' hjj hold hold' a ha b hb

/-- **Nobody touches a locked row.**  Whatever thread `i` does, the rows another
thread has locked stay as they are. -/
theorem frame_step {s : Sys R Req ε α} (hs : LocksFree s) {i j : Nat}
    {ti tj : Thread R K W Req ε α} {l : Label Req} {db : Db R}
    {th' : Thread R K W Req ε α} (hi : s.threads[i]? = some ti) (hj : s.threads[j]? = some tj)
    (hij : j ≠ i) (hm : Moves S s i ti l db th') : ∀ h ∈ tj.ses.tx.locks, h.Frame s.db db := by
  intro h hh
  cases hm with
  | runs _ he =>
    rcases exec_cases he with ⟨-, rfl, -⟩ | ⟨-, rfl, -⟩ | ⟨-, rfl, -⟩
    · exact Lock.Frame.refl h _
    · exact Lock.Frame.refl h _
    · exact frame_of_covered (hs.covered i ti hi)
        (fun a ha b hb => hs.free i j ti tj (Ne.symm hij) hi hj a ha b hb) _ h hh
  | refused _ _ => exact Lock.Frame.refl h _
  | closes _ => exact Lock.Frame.refl h _

end ReadCommitted
