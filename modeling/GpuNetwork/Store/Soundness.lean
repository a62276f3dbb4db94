import GpuNetwork.Store.Logic

/-!
# Soundness

If every handler of a server is safe, then in every run, whatever the interleaving,
every commit has its shape.  What the transaction found out under a lock is then still
so, and what it read without one is so as far as the run keeps its promises.

* `Spec.Ok`, `Spec.ok_step`, `Spec.ok_reach` — what holds in every state.
* `Spec.Committing` — all that is known of a transaction when it commits.
* `Spec.invariant` — the invariant rule for the store.
* `Spec.Chronicle`, `Spec.history`, `Spec.history_pairs` — the rules for what has been
  committed.
-/

namespace ReadCommitted

open Relation Schema

variable {R K W Req ε α : Type} [Schema R K W] [DecidableEq K]

namespace Spec

variable {P : Spec R K W Req ε α} {S : Server R K W Req ε α} {req : Req}

/-! ## Commits -/

/-- All that is known of a transaction when it commits on the store `db`. -/
structure Committing (P : Spec R K W Req ε α) (db : Db R) (req : Req) (tx : Tx R K W) : Prop
    extends P.Since req tx db where
  shape : P.shape req tx

/-- A commit of a specification of which more is said is one of that specification. -/
theorem Committing.of_also {shape : Req → Tx R K W → Prop}
    {post : Req → Except ε α → List (Tx R K W) → Prop} {db : Db R} {tx : Tx R K W}
    (h : (P.also shape post).Committing db req tx) : P.Committing db req tx :=
  ⟨⟨h.frame, h.drift⟩, h.shape.1⟩

/-- What a run promises about a step. -/
structure Kept (P : Spec R K W Req ε α) (s : Sys R Req ε α) (l : Label Req)
    (s' : Sys R Req ε α) : Prop where
  refusals : Refuses s l → P.refusals
  rely : ∀ i th, Commits s l i th → P.Committing s.db th.req th.ses.tx →
    ∀ (j : Nat) (tj : Thread R K W Req ε α), j ≠ i → s.threads[j]? = some tj →
      tj.prog.Finished = false → P.rely tj.req tj.ses.tx s.db s'.db

/-- What holds in every state of a run of a valid server. -/
structure Ok (P : Spec R K W Req ε α) (s : Sys R Req ε α) : Prop where
  locks : LocksFree s
  frame : ∀ (i : Nat) (th : Thread R K W Req ε α), s.threads[i]? = some th →
    ∀ e ∈ th.ses.tx.log, ∀ l ∈ e.locks, l.Frame e.db s.db
  drift : ∀ (i : Nat) (th : Thread R K W Req ε α), s.threads[i]? = some th →
    th.prog.Finished = false → ∀ e ∈ th.ses.tx.log, P.Drift th.req e e.db s.db
  safe : ∀ (i : Nat) (th : Thread R K W Req ε α), s.threads[i]? = some th →
    P.Safe th.req th.prog th.ses
  past : ∀ (i : Nat) (th : Thread R K W Req ε α), s.threads[i]? = some th →
    ∀ tx ∈ th.ses.past, P.shape th.req tx

theorem Ok.since {s : Sys R Req ε α} (hok : P.Ok s) {i : Nat} {th : Thread R K W Req ε α}
    (hi : s.threads[i]? = some th) (hf : th.prog.Finished = false) :
    P.Since th.req th.ses.tx s.db :=
  ⟨hok.frame i th hi, hok.drift i th hi hf⟩

/-- The thread that moved is still safe, and its past is in shape. -/
theorem Ok.moves (hP : P.Valid S) {s : Sys R Req ε α} (hok : P.Ok s) {i : Nat} {l : Label Req}
    {db : Db R} {th th' : Thread R K W Req ε α} (hi : s.threads[i]? = some th)
    (hm : Moves S s i th l db th') (href : Refuses s l → P.refusals) :
    P.Safe th'.req th'.prog th'.ses ∧ ∀ tx ∈ th'.ses.past, P.shape th'.req tx := by
  have hs := hok.safe i th hi
  have hpast := hok.past i th hi
  cases hm with
  | runs hp he =>
    rename_i pick q k r ses b
    have hsince := hok.since hi (by rw [hp]; rfl)
    rw [hp] at hs
    have h := hs (s.env i th pick) s.db hsince
    rw [he] at h
    refine ⟨h.2, ?_⟩
    rcases exec_cases he with ⟨-, -, hg⟩ | ⟨-, -, rfl⟩ | ⟨rfl, -, rfl⟩
    · cases hg with
      | same => exact hpast
      | takes _ _ => exact hpast
    · exact hpast
    · intro tx htx
      rcases List.mem_append.1 htx with htx | htx
      · exact hpast tx htx
      · rw [List.mem_singleton.1 htx]
        exact h.1 rfl
  | refused _ hr => exact ⟨hP.refused (href hr) _ _ _, hpast⟩
  | closes hf =>
    refine ⟨?_, hpast⟩
    cases hp : th.prog with
    | ret x => rw [hp] at hs; exact hs
    | throw e => rw [hp] at hs; exact hs
    | stmt q k => rw [hp] at hf; cases hf

/-- A thread that commits knows all that a committing transaction knows. -/
theorem Ok.committing {s : Sys R Req ε α} {l : Label Req} {i : Nat}
    {th : Thread R K W Req ε α} (hok : P.Ok s) (hc : Commits s l i th) :
    P.Committing s.db th.req th.ses.tx := by
  obtain ⟨hi, ⟨k, hp⟩, pick, -⟩ := hc
  have hsince := hok.since hi (by rw [hp]; rfl)
  have hsafe := hok.safe i th hi
  rw [hp] at hsafe
  exact { hsince with shape := (hsafe (s.env i th pick) s.db hsince).1 rfl }

/-- **What a step does to the store.**  It leaves it alone, or it is the commit of a
transaction. -/
theorem Ok.db_cases {s s' : Sys R Req ε α} {l : Label Req} (hok : P.Ok s)
    (hs : step S s l = some s') :
    s'.db = s.db ∨ ∃ i th th', Commits s l i th ∧ P.Committing s.db th.req th.ses.tx ∧
      s'.db = th.ses.tx.view s.db ∧ s'.threads = s.threads.set i th' ∧
      th'.req = th.req ∧ th'.ses = th.ses.committed := by
  rcases step_cases hs with ⟨req, -, rfl⟩ | ⟨d, -, rfl⟩ | ⟨i, th, th', db, hi, -, hm, rfl⟩
  · exact Or.inl rfl
  · exact Or.inl rfl
  · cases hm with
    | runs hp he =>
      rcases exec_cases he with ⟨-, rfl, -⟩ | ⟨-, rfl, -⟩ | ⟨rfl, rfl, rfl⟩
      · exact Or.inl rfl
      · exact Or.inl rfl
      · rename_i pick _ _ _
        have hc : Commits s (.run i pick) i th := ⟨hi, ⟨_, hp⟩, pick, rfl⟩
        exact Or.inr ⟨i, th, _, hc, hok.committing hc, rfl, rfl, rfl, rfl⟩
    | refused _ _ => exact Or.inl rfl
    | closes _ => exact Or.inl rfl

/-- A thread other than the one that moves sees the store change by a commit or not at
all. -/
theorem Ok.moves_cases {s : Sys R Req ε α} {l : Label Req} {i : Nat} {db : Db R}
    {th th' : Thread R K W Req ε α} (hi : s.threads[i]? = some th)
    (hm : Moves S s i th l db th') : db = s.db ∨ Commits s l i th := by
  cases hm with
  | runs hp he =>
    rcases exec_cases he with ⟨-, rfl, -⟩ | ⟨-, rfl, -⟩ | ⟨rfl, -, -⟩
    · exact Or.inl rfl
    · exact Or.inl rfl
    · exact Or.inr ⟨hi, ⟨_, hp⟩, _, rfl⟩
  | refused _ _ => exact Or.inl rfl
  | closes _ => exact Or.inl rfl

/-- What a thread has noted after it moved, it had noted before, or it is its last
statement and the store is still the same. -/
theorem Ok.moves_log {s : Sys R Req ε α} {l : Label Req} {i : Nat} {db : Db R}
    {th th' : Thread R K W Req ε α} (hm : Moves S s i th l db th') :
    ∀ e ∈ th'.ses.tx.log, db = s.db ∧ (e.db = s.db ∨ (e ∈ th.ses.tx.log ∧
      th.prog.Finished = false)) := by
  intro e he'
  cases hm with
  | runs hp he =>
    rcases exec_cases he with ⟨-, hdb, -⟩ | ⟨-, -, rfl⟩ | ⟨-, -, rfl⟩
    · rcases exec_log he e he' with h | h
      · exact ⟨hdb, Or.inr ⟨h, by rw [hp]; rfl⟩⟩
      · exact ⟨hdb, Or.inl h.1⟩
    · simp at he'
    · simp at he'
  | refused _ _ => simp at he'
  | closes _ => simp at he'

/-- **Soundness, one step.** -/
theorem ok_step (hP : P.Valid S) {s s' : Sys R Req ε α} {l : Label Req} (hok : P.Ok s)
    (hs : step S s l = some s') (hk : P.Kept s l s') : P.Ok s' := by
  have hlocks := locksFree_step hok.locks hs
  rcases step_cases hs with ⟨req, -, rfl⟩ | ⟨d, -, rfl⟩ | ⟨i, th, th', db, hi, -, hm, rfl⟩
  · refine ⟨hlocks, fun j t hj => ?_, fun j t hj => ?_, fun j t hj => ?_, fun j t hj => ?_⟩
    · rcases getElem?_concat_cases hj with hj | ⟨-, rfl⟩
      · exact hok.frame j t hj
      · intro e he; simp at he
    · rcases getElem?_concat_cases hj with hj | ⟨-, rfl⟩
      · exact hok.drift j t hj
      · intro _ e he; simp at he
    · rcases getElem?_concat_cases hj with hj | ⟨-, rfl⟩
      · exact hok.safe j t hj
      · exact hP.handle req
    · rcases getElem?_concat_cases hj with hj | ⟨-, rfl⟩
      · exact hok.past j t hj
      · intro tx htx; simp at htx
  · exact ⟨hlocks, hok.frame, hok.drift, hok.safe, hok.past⟩
  · have hmoves := hok.moves hP hi hm hk.refusals
    refine ⟨hlocks, fun j t hj => ?_, fun j t hj hf => ?_, fun j t hj => ?_, fun j t hj => ?_⟩
    · rcases getElem?_set_cases hj with ⟨-, rfl⟩ | ⟨hji, hold⟩
      · intro e he l hl
        obtain ⟨hdb, h | h⟩ := Ok.moves_log hm e he
        · rw [h, ← hdb]
          exact Lock.Frame.refl l _
        · rw [hdb]
          exact hok.frame i th hi e h.1 l hl
      · intro e he l hl
        exact (hok.frame j t hold e he l hl).trans (frame_step hok.locks hi hold hji hm l
          (List.mem_flatMap.2 ⟨e, he, hl⟩))
    · rcases getElem?_set_cases hj with ⟨-, rfl⟩ | ⟨hji, hold⟩
      · intro e he
        obtain ⟨hdb, h | h⟩ := Ok.moves_log hm e he
        · rw [h, ← hdb]
          exact ReflTransGen.refl
        · rw [hm.req_eq, hdb]
          exact hok.drift i th hi h.2 e h.1
      · intro e he
        have hd := hok.drift j t hold hf e he
        rcases Ok.moves_cases hi hm with hdb | hc
        · rw [hdb]; exact hd
        · exact ReflTransGen.tail hd ⟨t.ses.tx, he,
            hk.rely i th hc (hok.committing hc) j t hji hold hf⟩
    · rcases getElem?_set_cases hj with ⟨-, rfl⟩ | ⟨-, hold⟩
      · exact hmoves.1
      · exact hok.safe j t hold
    · rcases getElem?_set_cases hj with ⟨-, rfl⟩ | ⟨-, hold⟩
      · exact hmoves.2
      · exact hok.past j t hold

/-- **Soundness.**  Every state of a run that keeps the promises is in order. -/
theorem ok_reach (hP : P.Valid S) {T : Terms R Req ε α}
    (hT : ∀ s l s', step S s l = some s' → T s l s' → P.Ok s → P.Kept s l s')
    {s₀ s : Sys R Req ε α} (h₀ : P.Ok s₀) (h : Reach S T s₀ s) : P.Ok s :=
  h.invariant P.Ok (fun s l s' hok hs ht => ok_step hP hok hs (hT s l s' hs ht hok)) h₀

/-- A promise that every commit keeps by itself need not be asked of a run. -/
theorem kept_of_commits (href : P.refusals)
    (hP : ∀ db req tx, P.Committing db req tx → ∀ req' tx', P.rely req' tx' db (tx.view db))
    {s s' : Sys R Req ε α} {l : Label Req} (hs : step S s l = some s') : P.Kept s l s' := by
  refine ⟨fun _ => href, fun i th hc hcom j tj _ _ _ => ?_⟩
  rw [db_of_commits hc hs]
  exact hP _ _ _ hcom _ _

/-- A state in which no request has arrived is in order. -/
theorem ok_of_no_threads {s : Sys R Req ε α} (h : s.threads = []) : P.Ok s :=
  ⟨⟨fun i th hi => by simp [h] at hi, fun i j ti tj _ hi => by simp [h] at hi⟩,
    fun i th hi => by simp [h] at hi, fun i th hi => by simp [h] at hi,
    fun i th hi => by simp [h] at hi, fun i th hi => by simp [h] at hi⟩

/-- The invariant rule for the store: it is enough to look at commits. -/
theorem invariant (hP : P.Valid S) {T : Terms R Req ε α}
    (hT : ∀ s l s', step S s l = some s' → T s l s' → P.Ok s → P.Kept s l s') (I : Db R → Prop)
    (hI : ∀ s l s' i th, T s l s' → Commits s l i th → P.Committing s.db th.req th.ses.tx →
      I s.db → I (th.ses.tx.view s.db))
    {s₀ s : Sys R Req ε α} (h₀ : P.Ok s₀) (hI₀ : I s₀.db) (h : Reach S T s₀ s) : I s.db := by
  refine (h.invariant (fun s => P.Ok s ∧ I s.db) (fun s l s' hs hst ht => ?_) ⟨h₀, hI₀⟩).2
  refine ⟨ok_step hP hs.1 hst (hT s l s' hst ht hs.1), ?_⟩
  rcases Ok.db_cases hs.1 hst with he | ⟨i, th, -, hc, hsh, hv, -⟩
  · rw [he]; exact hs.2
  · rw [hv]; exact hI s l s' i th ht hc hsh hs.2

/-- What a thread has committed after a step. -/
theorem past_cases {s s' : Sys R Req ε α} {l : Label Req} (hs : step S s l = some s') {j : Nat}
    {tj' : Thread R K W Req ε α} (hj : s'.threads[j]? = some tj') :
    (s.threads[j]? = none ∧ tj'.ses.past = []) ∨ ∃ tj, s.threads[j]? = some tj ∧
      tj'.req = tj.req ∧ (tj'.ses.past = tj.ses.past ∨
        (Commits s l j tj ∧ tj'.ses.past = tj.ses.past ++ [tj.ses.tx])) := by
  rcases step_cases hs with ⟨req, -, rfl⟩ | ⟨d, -, rfl⟩ | ⟨i, th, th', db, hi, -, hm, rfl⟩
  · rcases getElem?_concat_cases hj with hj | ⟨rfl, rfl⟩
    · exact Or.inr ⟨tj', hj, rfl, Or.inl rfl⟩
    · exact Or.inl ⟨List.getElem?_eq_none le_rfl, rfl⟩
  · exact Or.inr ⟨tj', hj, rfl, Or.inl rfl⟩
  · rcases getElem?_set_cases hj with ⟨rfl, rfl⟩ | ⟨-, hold⟩
    · refine Or.inr ⟨th, hi, hm.req_eq, ?_⟩
      cases hm with
      | runs hp he =>
        rcases exec_cases he with ⟨-, -, hg⟩ | ⟨-, -, rfl⟩ | ⟨rfl, -, rfl⟩
        · cases hg with
          | same => exact Or.inl rfl
          | takes _ _ => exact Or.inl rfl
        · exact Or.inl rfl
        · exact Or.inr ⟨⟨hi, ⟨_, hp⟩, _, rfl⟩, rfl⟩
      | refused _ _ => exact Or.inl rfl
      | closes _ => exact Or.inl rfl
    · exact Or.inr ⟨tj', hold, rfl, Or.inl rfl⟩

/-- Threads do not go away. -/
theorem thread_after {s s' : Sys R Req ε α} {l : Label Req} (hs : step S s l = some s') {j : Nat}
    {tj : Thread R K W Req ε α} (hj : s.threads[j]? = some tj) :
    ∃ tj', s'.threads[j]? = some tj' := by
  have hlt : j < s.threads.length := (List.getElem?_eq_some_iff.1 hj).1
  suffices j < s'.threads.length from ⟨_, List.getElem?_eq_getElem this⟩
  rcases step_cases hs with ⟨req, -, rfl⟩ | ⟨d, -, rfl⟩ | ⟨i, th, th', db, hi, -, hm, rfl⟩
  · rw [List.length_append]; omega
  · exact hlt
  · rw [List.length_set]; exact hlt

/-- A thread keeps its request, and its answer once it has one. -/
theorem thread_later {s s' : Sys R Req ε α} {l : Label Req} (hs : step S s l = some s') {j : Nat}
    {tj : Thread R K W Req ε α} (hj : s.threads[j]? = some tj) :
    ∃ tj', s'.threads[j]? = some tj' ∧ tj'.req = tj.req ∧
      (tj.prog.Finished = true → tj'.prog = tj.prog) := by
  have hlt : j < s.threads.length := (List.getElem?_eq_some_iff.1 hj).1
  rcases step_cases hs with ⟨req, -, rfl⟩ | ⟨d, -, rfl⟩ | ⟨i, th, th', db, hi, -, hm, rfl⟩
  · exact ⟨tj, by rw [List.getElem?_append_left hlt, hj], rfl, fun _ => rfl⟩
  · exact ⟨tj, hj, rfl, fun _ => rfl⟩
  · by_cases hij : i = j
    · subst hij
      rw [hi, Option.some.injEq] at hj
      subst hj
      refine ⟨th', List.getElem?_set_self hlt, hm.req_eq, fun hf => ?_⟩
      cases hm with
      | runs hp he => rw [hp] at hf; cases hf
      | refused hp _ => rw [hp] at hf; cases hf
      | closes _ => rfl
    · exact ⟨tj, by rw [List.getElem?_set_ne hij, hj], rfl, fun _ => rfl⟩

/-- A thread was there before, or its request has just arrived. -/
theorem thread_earlier {s s' : Sys R Req ε α} {l : Label Req} (hs : step S s l = some s') {j : Nat}
    {tj' : Thread R K W Req ε α} (hj : s'.threads[j]? = some tj') :
    (∃ tj, s.threads[j]? = some tj ∧ tj'.req = tj.req) ∨
      (j = s.threads.length ∧ l = .spawn tj'.req) := by
  rcases step_cases hs with ⟨req, rfl, rfl⟩ | ⟨d, -, rfl⟩ | ⟨i, th, th', db, hi, -, hm, rfl⟩
  · rcases getElem?_concat_cases hj with hj | ⟨hlen, rfl⟩
    · exact Or.inl ⟨tj', hj, rfl⟩
    · exact Or.inr ⟨hlen, rfl⟩
  · exact Or.inl ⟨tj', hj, rfl⟩
  · rcases getElem?_set_cases hj with ⟨rfl, rfl⟩ | ⟨-, hold⟩
    · exact Or.inl ⟨th, hi, hm.req_eq⟩
    · exact Or.inl ⟨tj', hold, rfl⟩

/-- What a thread has committed stays committed. -/
theorem past_later {s s' : Sys R Req ε α} {l : Label Req} (hs : step S s l = some s') {j : Nat}
    {tj : Thread R K W Req ε α} (hj : s.threads[j]? = some tj) {tx : Tx R K W}
    (htx : tx ∈ tj.ses.past) :
    ∃ tj', s'.threads[j]? = some tj' ∧ tj'.req = tj.req ∧ tx ∈ tj'.ses.past := by
  obtain ⟨tj', hj'⟩ := thread_after hs hj
  rcases past_cases hs hj' with ⟨hnone, -⟩ | ⟨t, ht, hreq, hcases⟩
  · rw [hj] at hnone
    cases hnone
  · rw [hj, Option.some.injEq] at ht
    subst ht
    refine ⟨tj', hj', hreq, ?_⟩
    rcases hcases with hp | ⟨-, hp⟩
    · rwa [hp]
    · rw [hp]
      exact List.mem_append_left _ htx

/-- What a run promises, what its store keeps, and what stays true of every transaction
once it has been committed. -/
structure Chronicle (P : Spec R K W Req ε α) (S : Server R K W Req ε α) (T : Terms R Req ε α)
    (I : Db R → Prop) (G : Req → Tx R K W → Db R → Prop) : Prop where
  kept : ∀ s l s', step S s l = some s' → T s l s' → P.Ok s → P.Kept s l s'
  inv : ∀ s l s' i th, T s l s' → Commits s l i th → P.Committing s.db th.req th.ses.tx →
    I s.db → I (th.ses.tx.view s.db)
  new : ∀ s l s' i th, T s l s' → Commits s l i th → P.Committing s.db th.req th.ses.tx →
    I s.db → G th.req th.ses.tx (th.ses.tx.view s.db)
  old : ∀ s l s' i th, T s l s' → Commits s l i th → P.Committing s.db th.req th.ses.tx →
    I s.db → ∀ req tx, G req tx s.db → G req tx (th.ses.tx.view s.db)

/-- **The history rule.**  What a commit makes true, and every later commit keeps, is true
of all that has been committed. -/
theorem history (hP : P.Valid S) {T : Terms R Req ε α} {I : Db R → Prop}
    {G : Req → Tx R K W → Db R → Prop} (hC : P.Chronicle S T I G)
    {s₀ s : Sys R Req ε α} (h₀ : s₀.threads = []) (hI₀ : I s₀.db) (h : Reach S T s₀ s) :
    P.Ok s ∧ I s.db ∧ ∀ (i : Nat) (th : Thread R K W Req ε α), s.threads[i]? = some th →
      ∀ tx ∈ th.ses.past, G th.req tx s.db := by
  refine h.invariant (fun s => P.Ok s ∧ I s.db ∧ ∀ (i : Nat) (th : Thread R K W Req ε α),
    s.threads[i]? = some th → ∀ tx ∈ th.ses.past, G th.req tx s.db)
    (fun s l s' hs hst ht => ?_)
    ⟨ok_of_no_threads h₀, hI₀, fun i th hi => by simp [h₀] at hi⟩
  obtain ⟨hok, hdb, hpast⟩ := hs
  refine ⟨ok_step hP hok hst (hC.kept s l s' hst ht hok), ?_, fun j tj' hj tx htx => ?_⟩
  · rcases Ok.db_cases hok hst with he | ⟨i, th, -, hc, hcom, hv, -⟩
    · rw [he]; exact hdb
    · rw [hv]; exact hC.inv s l s' i th ht hc hcom hdb
  · rcases past_cases hst hj with ⟨-, hnil⟩ | ⟨tj, htj, hreq, hp | ⟨hc, hp⟩⟩
    · rw [hnil] at htx; simp at htx
    · rw [hp] at htx
      rw [hreq]
      have hbefore := hpast j tj htj tx htx
      rcases Ok.db_cases hok hst with he | ⟨i, th, -, hc, hcom, hv, -⟩
      · rw [he]; exact hbefore
      · rw [hv]; exact hC.old s l s' i th ht hc hcom hdb _ _ hbefore
    · rw [hp] at htx
      rw [hreq, db_of_commits hc hst]
      rcases List.mem_append.1 htx with htx | htx
      · exact hC.old s l s' j tj ht hc (hok.committing hc) hdb _ _ (hpast j tj htj tx htx)
      · rw [List.mem_singleton.1 htx]
        exact hC.new s l s' j tj ht hc (hok.committing hc) hdb

omit [DecidableEq K] in
/-- One thread commits at a time. -/
theorem eq_of_commits {s : Sys R Req ε α} {l : Label Req} {i j : Nat}
    {ti tj : Thread R K W Req ε α} (hi : Commits s l i ti) (hj : Commits s l j tj) : i = j := by
  obtain ⟨-, -, pick, rfl⟩ := hi
  obtain ⟨-, -, pick', he⟩ := hj
  cases he
  rfl

/-- **The history rule for pairs.**  Where each commit differs from all that is already
committed, the commits of any two threads differ. -/
theorem history_pairs (hP : P.Valid S) {T : Terms R Req ε α} {I : Db R → Prop}
    {G : Req → Tx R K W → Db R → Prop} (hC : P.Chronicle S T I G)
    (D : Req → Tx R K W → Req → Tx R K W → Prop)
    (hsymm : ∀ r tx r' tx', D r tx r' tx' → D r' tx' r tx)
    (hpair : ∀ s l s' i th, T s l s' → Commits s l i th → P.Committing s.db th.req th.ses.tx →
      I s.db → ∀ req tx, G req tx s.db → D th.req th.ses.tx req tx)
    {s₀ s : Sys R Req ε α} (h₀ : s₀.threads = []) (hI₀ : I s₀.db) (h : Reach S T s₀ s) :
    ∀ (i j : Nat) (ti tj : Thread R K W Req ε α), i ≠ j → s.threads[i]? = some ti →
      s.threads[j]? = some tj → ∀ tx ∈ ti.ses.past, ∀ tx' ∈ tj.ses.past,
      D ti.req tx tj.req tx' := by
  induction h with
  | refl => exact fun i j ti tj _ hi => by simp [h₀] at hi
  | tail hr hs ih =>
    rename_i s s'
    obtain ⟨l, hst, ht⟩ := hs
    obtain ⟨hok, hdb, hpast⟩ := history hP hC h₀ hI₀ hr
    -- what thread `i` commits now differs from all that thread `j` has committed
    have hfresh : ∀ (i j : Nat) (ti tj : Thread R K W Req ε α), s.threads[j]? = some tj →
        Commits s l i ti → ∀ tx' ∈ tj.ses.past, D ti.req ti.ses.tx tj.req tx' :=
      fun i j ti tj htj hc tx' htx' =>
        hpair s l s' i ti ht hc (hok.committing hc) hdb _ _ (hpast j tj htj tx' htx')
    intro i j ti' tj' hij hi hj tx htx tx' htx'
    rcases past_cases hst hi with ⟨-, hnil⟩ | ⟨ti, hti, hri, hpi⟩
    · rw [hnil] at htx; simp at htx
    rcases past_cases hst hj with ⟨-, hnil⟩ | ⟨tj, htj, hrj, hpj⟩
    · rw [hnil] at htx'; simp at htx'
    rw [hri, hrj]
    rcases hpi with hpi | ⟨hci, hpi⟩
    · rw [hpi] at htx
      rcases hpj with hpj | ⟨hcj, hpj⟩
      · rw [hpj] at htx'
        exact ih i j ti tj hij hti htj tx htx tx' htx'
      · rw [hpj] at htx'
        rcases List.mem_append.1 htx' with htx' | htx'
        · exact ih i j ti tj hij hti htj tx htx tx' htx'
        · rw [List.mem_singleton.1 htx']
          exact hsymm _ _ _ _ (hfresh j i tj ti hti hcj tx htx)
    · rcases hpj with hpj | ⟨hcj, -⟩
      · rw [hpi] at htx
        rw [hpj] at htx'
        rcases List.mem_append.1 htx with htx | htx
        · exact ih i j ti tj hij hti htj tx htx tx' htx'
        · rw [List.mem_singleton.1 htx]
          exact hfresh i j ti tj htj hci tx' htx'
      · exact absurd (eq_of_commits hci hcj) hij

/-! ## What a transaction still knows -/

namespace Since

variable {db : Db R} {tx : Tx R K W} {w : W} {r : R} {k : K}

/-- The row it has locked is as it was when it checked the clause on it. -/
theorem get_of_locked (h : P.Since req tx db) (hl : tx.Locked w r) :
    db.get (key r) = some r ∧ holds w r = true := by
  obtain ⟨e, he, hg, hh, hlock⟩ := hl
  have hf := (h.frame e he _ hlock).1 (by simp)
  exact ⟨hf.trans hg, hh⟩

/-- The key of a row it has inserted is still free. -/
theorem get_of_fresh (h : P.Since req tx db) (hf : tx.Fresh k) : db.get k = none := by
  obtain ⟨e, he, hg, hlock⟩ := hf
  exact ((h.frame e he _ hlock).1 (by simp)).trans hg

/-- A row it has found and locked is still there. -/
theorem exists_of_found (h : P.Since req tx db) (hf : tx.Found k) :
    ∃ r, db.get k = some r := by
  obtain ⟨e, he, hg, m, hlock⟩ := hf
  exact Option.isSome_iff_exists.1 ((h.frame e he _ hlock).2 hg)

/-- Where no commit of another comes in between, every statement was executed on the
store it commits on. -/
theorem db_eq_of_alone (h : P.Since req tx db) (hP : ∀ tx a b, P.rely req tx a b → a = b)
    {e : Entry R K W} (he : e ∈ tx.log) : e.db = db := by
  have hd := h.drift e he
  suffices ∀ a b, P.Drift req e a b → a = b from this _ _ hd
  intro a b hab
  induction hab with
  | refl => rfl
  | tail _ hs ih =>
    obtain ⟨tx', -, hr⟩ := hs
    rw [ih, hP _ _ _ hr]

/-- What every commit keeps while the transaction holds a statement in its log holds from
that statement on. -/
theorem keeps (h : P.Since req tx db) {e : Entry R K W} (he : e ∈ tx.log) {I : Db R → Prop}
    (hI : ∀ tx' a b, e ∈ tx'.log → P.rely req tx' a b → I a → I b) (hdb : I e.db) : I db := by
  have hd := h.drift e he
  suffices ∀ a b, P.Drift req e a b → I a → I b from this _ _ hd hdb
  intro a b hab ha
  induction hab with
  | refl => exact ha
  | tail _ hs ih =>
    obtain ⟨tx', he', hr⟩ := hs
    exact hI tx' _ _ he' hr ih

/-- What holds now, and held wherever another transaction committed, held at each of its
statements. -/
theorem held (h : P.Since req tx db) {e : Entry R K W} (he : e ∈ tx.log) {I : Db R → Prop}
    (hI : ∀ tx' a b, P.rely req tx' a b → I a) (hdb : I db) : I e.db := by
  rcases ReflTransGen.cases_head (h.drift e he) with heq | ⟨b, ⟨tx', -, hr⟩, -⟩
  · rw [heq]
    exact hdb
  · exact hI tx' _ _ hr

theorem get_of_read (h : P.Since req tx db) (hP : ∀ tx a b, P.rely req tx a b → a = b)
    (hr : tx.Read w r) : db.get (key r) = some r := by
  obtain ⟨e, he, -, hg, -⟩ := hr
  rw [← h.db_eq_of_alone hP he]
  exact hg

theorem holds_of_missed (h : P.Since req tx db) (hP : ∀ tx a b, P.rely req tx a b → a = b)
    (hm : tx.Missed w) (hg : db.get k = some r) : holds w r = false := by
  obtain ⟨e, he, -, hh⟩ := hm
  rw [← h.db_eq_of_alone hP he] at hg
  exact hh k r hg

end Since

end Spec

end ReadCommitted
