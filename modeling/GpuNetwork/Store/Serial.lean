import GpuNetwork.Store.Soundness

/-!
# One request at a time

Where a request arrives only once the one before it has been answered, no commit falls
between the statements of a transaction: what it has read is what it commits on.

* `OneAtATime` — the promise; `AtMostOne` — what it keeps.
* `Spec.serial_invariant` — the invariant rule for such runs.
-/

namespace ReadCommitted

variable {R K W Req ε α : Type} [Schema R K W]

/-- A request arrives only when all others have been answered. -/
def OneAtATime : Terms R Req ε α := fun s l _ =>
  ∀ req, l = .spawn req → ∀ th ∈ s.threads, th.prog.Finished = true

/-- The promise as a check. -/
def Sys.idles (s : Sys R Req ε α) : Label Req → Bool
  | .spawn _ => s.threads.all fun th => th.prog.Finished
  | _ => true

theorem oneAtATime_of_idles {s s' : Sys R Req ε α} {l : Label Req} (h : s.idles l = true) :
    OneAtATime s l s' := by
  intro req hl th hth
  subst hl
  exact List.all_eq_true.1 h th hth

/-- No two requests are in flight. -/
def AtMostOne (s : Sys R Req ε α) : Prop :=
  ∀ (i j : Nat) (ti tj : Thread R K W Req ε α), s.threads[i]? = some ti →
    s.threads[j]? = some tj → ti.prog.Finished = false → tj.prog.Finished = false → i = j

variable [DecidableEq K] {S : Server R K W Req ε α} {s s₀ s' : Sys R Req ε α} {l : Label Req}

/-- A run that is checked for it admits one request at a time. -/
theorem Reach.of_idles {ls : List (Label Req)} (h : runWhile S Sys.idles s ls = some s') :
    Reach S OneAtATime s s' :=
  (Reach.of_runWhile h).mono fun _ _ _ ht => oneAtATime_of_idles ht.1

/-- A request that has been answered stays answered. -/
theorem Moves.unfinished {i : Nat} {db : Db R} {th th' : Thread R K W Req ε α}
    (hm : Moves S s i th l db th') (h : th'.prog.Finished = false) :
    th.prog.Finished = false := by
  cases hm with
  | runs hp he => rw [hp]; rfl
  | refused hp hr => rw [hp]; rfl
  | closes hf => exact h

theorem atMostOne_step (hI : AtMostOne s) (hs : step S s l = some s')
    (ht : OneAtATime s l s') : AtMostOne s' := by
  rcases step_cases hs with ⟨req, rfl, rfl⟩ | ⟨d, -, rfl⟩ | ⟨i, th, th', db, hi, -, hm, rfl⟩
  · intro j k tj tk hj hk hfj hfk
    -- the threads that were there are done, so both are the new one
    have hold : ∀ (j : Nat) (t : Thread R K W Req ε α), t.prog.Finished = false →
        (s.threads ++ [⟨req, S.handle req, {}, none⟩])[j]? = some t → j = s.threads.length := by
      intro j t hf hj
      rcases getElem?_concat_cases hj with hj | ⟨hlen, -⟩
      · rw [ht req rfl t (List.mem_of_getElem? hj)] at hf
        cases hf
      · exact hlen
    rw [hold j tj hfj hj, hold k tk hfk hk]
  · exact hI
  · have hold : ∀ (j : Nat) (t : Thread R K W Req ε α), t.prog.Finished = false →
        (s.threads.set i th')[j]? = some t →
        ∃ t₀, s.threads[j]? = some t₀ ∧ t₀.prog.Finished = false := by
      intro j t hf hj
      rcases getElem?_set_cases hj with ⟨rfl, rfl⟩ | ⟨-, hj⟩
      · exact ⟨th, hi, hm.unfinished hf⟩
      · exact ⟨t, hj, hf⟩
    intro j k tj tk hj hk hfj hfk
    obtain ⟨tj₀, hj₀, hfj₀⟩ := hold j tj hfj hj
    obtain ⟨tk₀, hk₀, hfk₀⟩ := hold k tk hfk hk
    exact hI j k tj₀ tk₀ hj₀ hk₀ hfj₀ hfk₀

/-- **Nobody else is in flight**, in every state of a run of one request at a time. -/
theorem Reach.atMostOne {T : Terms R Req ε α} (hT : ∀ s l s', T s l s' → OneAtATime s l s')
    (h₀ : s₀.threads = []) (h : Reach S T s₀ s) :
    Reach S (fun s l s' => T s l s' ∧ AtMostOne s) s₀ s :=
  (h.strengthen AtMostOne (fun s l s' hI hs ht => atMostOne_step hI hs (hT s l s' ht))
    (fun i j ti tj hi => by simp [h₀] at hi)).1

namespace Spec

variable {P : Spec R K W Req ε α}

/-- A run with one request in flight keeps every promise about the commits of others. -/
theorem kept_of_atMostOne (href : P.refusals) (hone : AtMostOne s) : P.Kept s l s' := by
  refine ⟨fun _ => href, fun i th hc _ j tj hji hj hf => ?_⟩
  obtain ⟨hi, ⟨k, hp⟩, -⟩ := hc
  have hfi : th.prog.Finished = false := by rw [hp]; rfl
  exact absurd (hone j i tj th hj hi hf hfi) hji

/-- **The invariant rule for one request at a time.** -/
theorem serial_invariant (hP : P.Valid S) (href : P.refusals) {T : Terms R Req ε α}
    (hT : ∀ s l s', T s l s' → OneAtATime s l s') (I : Db R → Prop)
    (hI : ∀ s l s' i th, T s l s' → Commits s l i th → P.Committing s.db th.req th.ses.tx →
      I s.db → I (th.ses.tx.view s.db))
    (h₀ : s₀.threads = []) (hI₀ : I s₀.db) (h : Reach S T s₀ s) : I s.db :=
  invariant hP (fun _ _ _ _ ht _ => kept_of_atMostOne href ht.2) I
    (fun s l s' i th ht => hI s l s' i th ht.1) (ok_of_no_threads h₀) hI₀ (h.atMostOne hT h₀)

end Spec

end ReadCommitted
