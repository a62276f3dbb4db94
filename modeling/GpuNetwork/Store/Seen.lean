import GpuNetwork.Store.Soundness

/-!
# What transactions go by

A transaction may write what it works out of rows it has read some time ago.  What a run
makes of the store it makes of these rows as well, as long as it does not go away again.

* `Seen` — a property of the store, and of every store a transaction has looked at.
* `Spec.seen_of_reach` — the invariant rule for such properties.
* `looked_at_earlier`, `commit_of_past` — a run has been through what its transactions have
  looked at and through their commits.
* `Spec.answers_of_reach` — what an answer stands for, once it has been given.
-/

namespace ReadCommitted

variable {R K W Req ε α : Type} [Schema R K W] [DecidableEq K] {S : Server R K W Req ε α}
  {s s' s₀ : Sys R Req ε α} {l : Label Req}

/-- The property holds of the store, and of every store a statement of a transaction was
executed on, whether the transaction is open or committed. -/
structure Seen (F : Db R → Prop) (s : Sys R Req ε α) : Prop where
  db : F s.db
  log : ∀ (i : Nat) (th : Thread R K W Req ε α), s.threads[i]? = some th →
    ∀ tx ∈ th.ses.tx :: th.ses.past, ∀ e ∈ tx.log, F e.db

/-- What a transaction looks at in a step is the store as it is. -/
theorem seen_step {F F' : Db R → Prop} (h : Seen F s) (hs : step S s l = some s')
    (hF : ∀ d, F d → F' d) (hdb : F' s'.db) : Seen F' s' := by
  refine ⟨hdb, fun i th hi tx htx e he => ?_⟩
  rcases List.mem_cons.1 htx with rfl | hpast
  · rcases step_cases hs with ⟨req, -, rfl⟩ | ⟨d, -, rfl⟩ | ⟨j, tj, tj', db, hj, -, hm, rfl⟩
    · rcases getElem?_concat_cases hi with hi | ⟨-, rfl⟩
      · exact hF _ (h.log i th hi _ (List.mem_cons_self ..) e he)
      · simp at he
    · exact hF _ (h.log i th hi _ (List.mem_cons_self ..) e he)
    · rcases getElem?_set_cases hi with ⟨-, rfl⟩ | ⟨-, hold⟩
      · obtain ⟨-, hnew | ⟨hold, -⟩⟩ := Spec.Ok.moves_log hm e he
        · rw [hnew]
          exact hF _ h.db
        · exact hF _ (h.log j tj hj _ (List.mem_cons_self ..) e hold)
      · exact hF _ (h.log i th hold _ (List.mem_cons_self ..) e he)
  · -- what is committed now was open before
    rcases Spec.past_cases hs hi with ⟨-, hnil⟩ | ⟨t, ht, -, hp | ⟨-, hp⟩⟩
    · rw [hnil] at hpast
      cases hpast
    · rw [hp] at hpast
      exact hF _ (h.log i t ht tx (List.mem_cons_of_mem _ hpast) e he)
    · rw [hp, List.mem_append, List.mem_singleton] at hpast
      rcases hpast with hpast | rfl
      · exact hF _ (h.log i t ht tx (List.mem_cons_of_mem _ hpast) e he)
      · exact hF _ (h.log i t ht _ (List.mem_cons_self ..) e he)

namespace Spec

variable {P : Spec R K W Req ε α}

/-- **The invariant rule for what transactions go by.**  A property that steps do not take
away, and that every commit keeps of the store when it holds of all that the transaction has
looked at, holds in every reachable state. -/
theorem seen_of_reach (hP : P.Valid S) {T : Terms R Req ε α}
    (hT : ∀ s l s', step S s l = some s' → T s l s' → P.Ok s → P.Kept s l s')
    {F : Sys R Req ε α → Db R → Prop}
    (hmono : ∀ s l s' d, step S s l = some s' → F s d → F s' d)
    (hcommit : ∀ s l s' i th, P.Ok s → Seen (F s) s → step S s l = some s' → Commits s l i th →
      F s' (th.ses.tx.view s.db))
    (h₀ : s₀.threads = []) (hF₀ : F s₀ s₀.db) (h : Reach S T s₀ s) : P.Ok s ∧ Seen (F s) s := by
  refine h.invariant (fun s => P.Ok s ∧ Seen (F s) s) (fun s l s' hI hs ht => ?_)
    ⟨ok_of_no_threads h₀, hF₀, fun i th hi => by simp [h₀] at hi⟩
  obtain ⟨hok, hseen⟩ := hI
  refine ⟨ok_step hP hok hs (hT s l s' hs ht hok), seen_step hseen hs (hmono s l s' · hs) ?_⟩
  rcases hok.db_cases hs with hdb | ⟨i, th, th', hc, -, hdb, -⟩
  · rw [hdb]
    exact hmono s l s' s.db hs hseen.db
  · rw [hdb]
    exact hcommit s l s' i th hok hseen hs hc

/-- **The rule for answers.**  What a handler makes true by returning as `Q` says, and later
steps keep, is true once it has answered. -/
theorem answers_of_reach (hP : P.Valid S) {T : Terms R Req ε α}
    (hT : ∀ s l s', step S s l = some s' → T s l s' → P.Ok s → P.Kept s l s')
    {Q : Req → α → Session R K W → Prop} (hQ : ∀ req, P.Wp req (S.handle req) {} (Q req))
    {F : Req → α → Sys R Req ε α → Prop}
    (hends : ∀ (s : Sys R Req ε α) (i : Nat) (th : Thread R K W Req ε α) (a : α),
      Reach S T s₀ s → s.threads[i]? = some th → Q th.req a th.ses → F th.req a s)
    (hkeeps : ∀ s l s' req a, Reach S T s₀ s → step S s l = some s' → T s l s' → F req a s →
      F req a s')
    (h₀ : s₀.threads = []) (h : Reach S T s₀ s) {i : Nat} {th : Thread R K W Req ε α}
    (hi : s.threads[i]? = some th) {a : α} (ha : th.prog = .ret a) : F th.req a s := by
  suffices ∀ (i : Nat) (th : Thread R K W Req ε α), s.threads[i]? = some th →
      (th.prog.Finished = false → P.Wp th.req th.prog th.ses (Q th.req)) ∧
        ∀ a, th.prog = .ret a → F th.req a s from (this i th hi).2 a ha
  clear hi ha
  induction h with
  | refl => exact fun i th hi => by simp [h₀] at hi
  | tail hr hs ih =>
    rename_i s s'
    obtain ⟨l, hst, ht⟩ := hs
    have hr' : Reach S T s₀ s' := Reach.tail hr hst ht
    have hok : P.Ok s := ok_reach hP hT (ok_of_no_threads h₀) hr
    intro i th' hi'
    have hnew : P.Wp th'.req th'.prog th'.ses (Q th'.req) →
        (th'.prog.Finished = false → P.Wp th'.req th'.prog th'.ses (Q th'.req)) ∧
          ∀ a, th'.prog = .ret a → F th'.req a s' := by
      refine fun hwp => ⟨fun _ => hwp, fun a ha => hends s' i th' a hr' hi' ?_⟩
      rwa [ha] at hwp
    have hold : s.threads[i]? = some th' →
        (th'.prog.Finished = false → P.Wp th'.req th'.prog th'.ses (Q th'.req)) ∧
          ∀ a, th'.prog = .ret a → F th'.req a s' := fun hi =>
      ⟨(ih i th' hi).1, fun a ha => hkeeps s l s' _ a hr hst ht ((ih i th' hi).2 a ha)⟩
    rcases step_cases hst with ⟨req, -, rfl⟩ | ⟨d, -, rfl⟩ | ⟨j, tj, tj', db, hj, -, hm, rfl⟩
    · rcases getElem?_concat_cases hi' with hi | ⟨-, rfl⟩
      · exact hold hi
      · exact hnew (hQ req)
    · exact hold hi'
    · rcases getElem?_set_cases hi' with ⟨rfl, rfl⟩ | ⟨-, hi⟩
      · cases hm with
        | runs hp he =>
          -- the statement it was at, and what comes after it
          rename_i pick q k r ses b
          have hf : tj.prog.Finished = false := by rw [hp]; rfl
          have hwp := (ih i tj hj).1 hf
          rw [hp] at hwp
          have hnext := hwp (s.env i tj pick) s.db (hok.since hj hf)
          rw [he] at hnext
          exact hnew hnext.2
        | refused _ _ => exact ⟨fun hf => (by cases hf), fun a ha => (by cases ha)⟩
        | closes hf =>
          refine ⟨fun hf' => absurd (hf.symm.trans hf') (by simp), fun a ha => ?_⟩
          exact hkeeps s l _ _ a hr hst ht ((ih i tj hj).2 a ha)
      · exact hold hi

end Spec

/-- Nothing is asked of a handler. -/
def Spec.lax : Spec R K W Req ε α := { shape := fun _ _ => True, post := fun _ _ _ => True }

theorem Spec.lax_valid : (Spec.lax : Spec R K W Req ε α).Valid S :=
  ⟨fun _ => wp_of_trivial (fun _ => trivial) (fun _ _ => trivial) fun _ _ => trivial,
    fun _ _ _ _ => trivial⟩

theorem Spec.lax_kept (h : step S s l = some s') : (Spec.lax : Spec R K W Req ε α).Kept s l s' :=
  kept_of_commits trivial (fun _ _ _ _ _ _ => trivial) h

/-! ## The states a run has been through -/

variable {T : Terms R Req ε α}

/-- What a transaction has looked at was the store at some point of the run. -/
theorem looked_at_earlier (h₀ : s₀.threads = []) (h : Reach S T s₀ s) :
    Seen (fun d => ∃ s₁ : Sys R Req ε α, s₁.db = d ∧ Reach S T s₀ s₁ ∧ Reach S T s₁ s) s := by
  induction h with
  | refl => exact ⟨⟨s₀, rfl, .refl, .refl⟩, fun i th hi => by simp [h₀] at hi⟩
  | tail hr hs ih =>
    obtain ⟨l, hst, ht⟩ := hs
    refine seen_step ih hst ?_ ⟨_, rfl, Reach.tail hr hst ht, .refl⟩
    rintro d ⟨s₁, hd, hr₁, hr₂⟩
    exact ⟨s₁, hd, hr₁, Reach.tail hr₂ hst ht⟩

/-- A transaction that has been committed was committed in some step of the run. -/
theorem commit_of_past (h₀ : s₀.threads = []) (h : Reach S T s₀ s) {i : Nat}
    {th : Thread R K W Req ε α} (hi : s.threads[i]? = some th) {tx : Tx R K W}
    (htx : tx ∈ th.ses.past) : ∃ s₁ l s₂ th₁, Reach S T s₀ s₁ ∧ step S s₁ l = some s₂ ∧
      T s₁ l s₂ ∧ Commits s₁ l i th₁ ∧ th₁.req = th.req ∧ th₁.ses.tx = tx ∧ Reach S T s₂ s := by
  induction h generalizing th with
  | refl => simp [h₀] at hi
  | tail hr hs ih =>
    rename_i s s'
    obtain ⟨l, hst, ht⟩ := hs
    obtain ⟨t, hi', hreq, htx | ⟨hc, rfl⟩⟩ : ∃ t, s.threads[i]? = some t ∧ th.req = t.req ∧
        (tx ∈ t.ses.past ∨ (Commits s l i t ∧ tx = t.ses.tx)) := by
      rcases Spec.past_cases hst hi with ⟨-, hnil⟩ | ⟨t, hi', hreq, hp | ⟨hc, hp⟩⟩
      · rw [hnil] at htx
        cases htx
      · exact ⟨t, hi', hreq, Or.inl (hp ▸ htx)⟩
      · rw [hp, List.mem_append, List.mem_singleton] at htx
        exact ⟨t, hi', hreq, htx.imp_right fun he => ⟨hc, he⟩⟩
    · obtain ⟨s₁, m, s₂, th₁, hr₁, hst₁, ht₁, hc₁, hreq₁, htx₁, hr₂⟩ := ih hi' htx
      exact ⟨s₁, m, s₂, th₁, hr₁, hst₁, ht₁, hc₁, hreq₁.trans hreq.symm, htx₁,
        Reach.tail hr₂ hst ht⟩
    · exact ⟨s, l, s', t, hr, hst, ht, hc, hreq.symm, rfl, Reach.refl⟩

end ReadCommitted
