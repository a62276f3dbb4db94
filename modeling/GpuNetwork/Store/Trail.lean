import GpuNetwork.Store.Soundness

/-!
# Where a transaction has been

A transaction remembers its statements.  In a run each of them was executed at one step,
in their order, and the transaction has been open ever since.

* `AtStep` — the state a run is in after so many steps.
* `Noted`, `noted` — the step of a statement.
* `locked_of_changed` — a row that changes is locked by the session that changes it.
* `held_of_passed_over` — a row that a query found and `tryLock` passed over was locked by
  another session in the meantime.
-/

namespace ReadCommitted

open Schema

variable {R K W Req ε α : Type} [Schema R K W] [DecidableEq K]

/-! ## The states of a run -/

/-- The run `ls` from `s₀` is in `s` after its first `m` steps. -/
def AtStep (S : Server R K W Req ε α) (s₀ : Sys R Req ε α) (ls : List (Label Req)) (m : Nat)
    (s : Sys R Req ε α) : Prop :=
  m ≤ ls.length ∧ runFrom S s₀ (ls.take m) = some s

variable {S : Server R K W Req ε α} {s₀ s s' : Sys R Req ε α} {ls : List (Label Req)} {m n : Nat}

theorem atStep_zero : AtStep S s₀ ls 0 s₀ := ⟨Nat.zero_le _, rfl⟩

theorem atStep_length (h : runFrom S s₀ ls = some s) : AtStep S s₀ ls ls.length s :=
  ⟨le_rfl, by rw [List.take_length]; exact h⟩

theorem AtStep.unique (h : AtStep S s₀ ls m s) (h' : AtStep S s₀ ls m s') : s = s' :=
  Option.some.inj (h.2.symm.trans h'.2)

theorem AtStep.reach (h : AtStep S s₀ ls m s) : Reach S anyTerms s₀ s := Reach.of_runFrom h.2

/-- The last step before a state of a run. -/
theorem atStep_succ : AtStep S s₀ ls (m + 1) s' ↔
    ∃ s l, AtStep S s₀ ls m s ∧ ls[m]? = some l ∧ step S s l = some s' := by
  constructor
  · rintro ⟨hlen, hrun⟩
    have hm : m < ls.length := hlen
    rw [List.take_add_one, List.getElem?_eq_getElem hm, Option.toList_some, runFrom_append,
      Option.bind_eq_some_iff] at hrun
    obtain ⟨s, hs, hl⟩ := hrun
    rw [runFrom_cons, Option.bind_eq_some_iff] at hl
    obtain ⟨s₁, hst, he⟩ := hl
    cases he
    exact ⟨s, ls[m], ⟨hm.le, hs⟩, List.getElem?_eq_getElem hm, hst⟩
  · rintro ⟨s, l, ⟨-, hs⟩, hl, hst⟩
    obtain ⟨hm, rfl⟩ := List.getElem?_eq_some_iff.1 hl
    refine ⟨hm, ?_⟩
    rw [List.take_add_one, hl, Option.toList_some, runFrom_append, hs, Option.bind_some,
      runFrom_cons, hst]
    rfl

/-- A run has passed a state at each of its steps. -/
theorem AtStep.earlier (h : AtStep S s₀ ls n s) (hmn : m ≤ n) : ∃ s', AtStep S s₀ ls m s' := by
  induction n generalizing s with
  | zero => exact ⟨s, Nat.le_zero.1 hmn ▸ h⟩
  | succ n ih =>
    rcases Nat.lt_or_eq_of_le hmn with hlt | rfl
    · obtain ⟨s₁, l, hs, -, -⟩ := atStep_succ.1 h
      exact ih hs (Nat.lt_succ_iff.1 hlt)
    · exact ⟨s, h⟩

/-- The rest of a run leads from one of its states to a later one. -/
theorem AtStep.between (hm : AtStep S s₀ ls m s) (hn : AtStep S s₀ ls n s') (hmn : m ≤ n) :
    Reach S anyTerms s s' := by
  induction n generalizing s' with
  | zero =>
    obtain rfl := Nat.le_zero.1 hmn
    rw [hm.unique hn]
    exact Reach.refl
  | succ n ih =>
    rcases Nat.lt_or_eq_of_le hmn with hlt | rfl
    · obtain ⟨s₁, l, hs, -, hst⟩ := atStep_succ.1 hn
      exact (ih hs (Nat.lt_succ_iff.1 hlt)).tail hst trivial
    · rw [hm.unique hn]
      exact Reach.refl

/-- The invariant rule for a run: what holds at the start and is kept by every step. -/
theorem AtStep.invariant (I : Nat → Sys R Req ε α → Prop) (h₀ : I 0 s₀)
    (hstep : ∀ m s l s', AtStep S s₀ ls m s → ls[m]? = some l → step S s l = some s' → I m s →
      I (m + 1) s') (h : AtStep S s₀ ls n s) : I n s := by
  induction n generalizing s with
  | zero => rw [h.unique atStep_zero]; exact h₀
  | succ n ih =>
    obtain ⟨s₁, l, hs, hl, hst⟩ := atStep_succ.1 h
    exact hstep n s₁ l s hs hl hst (ih hs)

/-- A run that keeps its terms has kept them so far. -/
theorem AtStep.along {T : Terms R Req ε α} (h : AtStep S s₀ ls n s) (hT : Along S T s₀ ls) :
    Reach S T s₀ s := by
  refine h.invariant (fun _ s => Reach S T s₀ s) Reach.refl fun m s l s' hs hl hst hr => ?_
  obtain ⟨hlt, rfl⟩ := List.getElem?_eq_some_iff.1 hl
  have hsplit : ls.take m ++ ls[m] :: ls.drop (m + 1) = ls := by
    rw [List.getElem_cons_drop, List.take_append_drop]
  rw [← hsplit] at hT
  exact hr.tail hst (hT.at_step hs.2 hst)

/-! ## Statements and their steps -/

/-- A step at which thread `i` runs the statement `q`. -/
structure RunsAt (S : Server R K W Req ε α) (s₀ : Sys R Req ε α) (ls : List (Label Req)) (i m : Nat)
    (s : Sys R Req ε α) (th : Thread R K W Req ε α) (q : Stmt R K W) : Prop where
  state : AtStep S s₀ ls m s
  label : ∃ pick, ls[m]? = some (.run i pick)
  thread : s.threads[i]? = some th
  stmt : ∃ k, th.prog = .stmt q k

/-- The transaction `tx` of thread `i` has noted `e` at step `m`, after the statements
`earlier`, and has been open from there to step `n`. -/
structure NotedAt (S : Server R K W Req ε α) (s₀ : Sys R Req ε α) (ls : List (Label Req))
    (i n : Nat) (tx : Tx R K W) (e : Entry R K W) (earlier : List (Entry R K W)) (m : Nat)
    (s : Sys R Req ε α) (th : Thread R K W Req ε α) : Prop where
  lt : m < n
  runs : RunsAt S s₀ ls i m s th e.stmt
  db : s.db = e.db
  log : th.ses.tx.log = earlier
  writes : ∀ w ∈ th.ses.tx.writes, w ∈ tx.writes
  exec : ∃ pick r ses db, exec (s.env i th pick) s.db th.ses e.stmt = .ok r ses db ∧
    ses.tx.log = e :: earlier
  stays : ∀ m' s', m < m' → m' ≤ n → AtStep S s₀ ls m' s' →
    ∃ th', s'.threads[i]? = some th' ∧ (e :: earlier) <:+ th'.ses.tx.log

/-- The transaction of thread `i` has noted `e` before step `n`. -/
def Noted (S : Server R K W Req ε α) (s₀ : Sys R Req ε α) (ls : List (Label Req)) (i n : Nat)
    (tx : Tx R K W) (e : Entry R K W) (earlier : List (Entry R K W)) : Prop :=
  ∃ m s th, NotedAt S s₀ ls i n tx e earlier m s th

variable {i : Nat} {tx tx' : Tx R K W} {e : Entry R K W} {earlier : List (Entry R K W)}

/-- A transaction that stays open keeps what it has noted. -/
theorem Noted.next (h : Noted S s₀ ls i n tx e earlier) (hs : AtStep S s₀ ls (n + 1) s')
    {th' : Thread R K W Req ε α} (hi : s'.threads[i]? = some th')
    (hlog : (e :: earlier) <:+ th'.ses.tx.log) (hw : ∀ w ∈ tx.writes, w ∈ tx'.writes) :
    Noted S s₀ ls i (n + 1) tx' e earlier := by
  obtain ⟨m, s, th, h⟩ := h
  refine ⟨m, s, th, { h with
    lt := Nat.lt_succ_of_lt h.lt
    writes := fun w hw' => hw w (h.writes w hw')
    stays := fun m' s₁ hlt hle hs₁ => ?_ }⟩
  rcases Nat.lt_or_eq_of_le hle with hle | rfl
  · exact h.stays m' s₁ hlt (Nat.lt_succ_iff.1 hle) hs₁
  · rw [hs₁.unique hs]
    exact ⟨th', hi, hlog⟩

/-- **Every statement has its step.** -/
theorem noted (h₀ : s₀.threads = []) (h : AtStep S s₀ ls n s) {th : Thread R K W Req ε α}
    (hi : s.threads[i]? = some th) {later : List (Entry R K W)}
    (hlog : th.ses.tx.log = later ++ e :: earlier) : Noted S s₀ ls i n th.ses.tx e earlier := by
  refine h.invariant (fun n s => ∀ th, s.threads[i]? = some th → ∀ later e earlier,
    th.ses.tx.log = later ++ e :: earlier → Noted S s₀ ls i n th.ses.tx e earlier) ?_ ?_
    th hi later e earlier hlog
  · intro th hi
    simp [h₀] at hi
  · intro m s l s' hs hl hst hI th' hi' later e earlier hlog
    have hs' : AtStep S s₀ ls (m + 1) s' := atStep_succ.2 ⟨s, l, hs, hl, hst⟩
    have hsuffix : (e :: earlier) <:+ th'.ses.tx.log := ⟨later, hlog.symm⟩
    -- a thread whose transaction has not changed
    have hsame : ∀ t, s.threads[i]? = some t → t.ses.tx = th'.ses.tx →
        Noted S s₀ ls i (m + 1) th'.ses.tx e earlier := by
      intro t ht htx
      have hold := hI t ht later e earlier (by rw [htx]; exact hlog)
      rw [htx] at hold
      exact hold.next hs' hi' hsuffix fun w hw => hw
    rcases step_cases hst with ⟨req, -, rfl⟩ | ⟨d, -, rfl⟩ | ⟨j, th, t', db, hj, -, hm, rfl⟩
    · rcases getElem?_concat_cases hi' with hold | ⟨-, rfl⟩
      · exact hsame th' hold rfl
      · simp at hlog
    · exact hsame th' hi' rfl
    · rcases getElem?_set_cases hi' with ⟨rfl, rfl⟩ | ⟨-, hold⟩
      swap
      · exact hsame th' hold rfl
      cases hm with
      | refused _ _ => simp at hlog
      | closes _ => simp at hlog
      | runs hp he =>
        rename_i pick q k r ses b
        rcases exec_cases he with ⟨-, hdb, hg⟩ | ⟨-, -, rfl⟩ | ⟨-, -, rfl⟩
        · cases hg with
          | same => exact hsame th hj rfl
          | takes hfree hcov =>
            rename_i ws lks
            cases later with
            | nil =>
              -- the statement is noted now
              cases hlog
              refine ⟨m, s, th, Nat.lt_succ_self m, ⟨hs, ⟨pick, hl⟩, hj, ⟨k, hp⟩⟩, rfl, rfl,
                fun w hw => List.mem_append_left _ hw, ⟨pick, r, _, db, he, rfl⟩, ?_⟩
              intro m' s₁ hlt hle hs₁
              have hm' : m' = m + 1 := by omega
              subst hm'
              rw [hs₁.unique hs']
              exact ⟨_, hi', List.suffix_refl _⟩
            | cons e' later =>
              have hlog' : th.ses.tx.log = later ++ e :: earlier := (List.cons.inj hlog).2
              exact (hI th hj later e earlier hlog').next hs' hi' hsuffix
                fun w hw => List.mem_append_left _ hw
        · simp at hlog
        · simp at hlog

/-- What was noted first was noted earlier. -/
theorem NotedAt.order {e₀ : Entry R K W} {mid : List (Entry R K W)} {q p : Nat}
    {sq sp : Sys R Req ε α} {tq tp : Thread R K W Req ε α}
    (h₀ : NotedAt S s₀ ls i n tx e₀ earlier q sq tq)
    (h : NotedAt S s₀ ls i n tx e (mid ++ e₀ :: earlier) p sp tp) : q < p := by
  by_contra hle
  rcases Nat.lt_or_eq_of_le (not_lt.1 hle) with hlt | rfl
  · -- at the later step the log would be shorter
    obtain ⟨th, hth, hsuffix⟩ := h.stays q sq hlt h₀.lt.le h₀.runs.state
    rw [h₀.runs.thread, Option.some.injEq] at hth
    subst hth
    have hlen := hsuffix.length_le
    rw [h₀.log] at hlen
    simp at hlen
    omega
  · obtain rfl := h.runs.state.unique h₀.runs.state
    obtain rfl := Option.some.inj (h.runs.thread.symm.trans h₀.runs.thread)
    have hlen := congrArg List.length (h.log.symm.trans h₀.log)
    simp at hlen
    omega

/-- The statement does not end its transaction. -/
def Stmt.stays (q : Stmt R K W) : Prop := q ≠ .commit ∧ q ≠ .rollback

/-- **A transaction that stays open only adds to what it has noted.** -/
theorem Spec.wp_stays {P : Spec R K W Req ε α} {req : Req} {β : Type} {x : Prog R K W ε β}
    {ses : Session R K W} {Q : β → Session R K W → Prop} (hx : x.Emits Stmt.stays)
    (h : P.Wp req x ses Q) :
    P.Wp req x ses fun b ses' => Q b ses' ∧ ses.tx.log <:+ ses'.tx.log := by
  suffices ∀ ses', ses.tx.log <:+ ses'.tx.log → P.Wp req x ses' Q →
      P.Wp req x ses' fun b ses' => Q b ses' ∧ ses.tx.log <:+ ses'.tx.log from
    this ses (List.suffix_refl _) h
  clear h
  induction x with
  | ret b => exact fun ses' hsuffix h => ⟨h, hsuffix⟩
  | throw e => exact fun ses' hsuffix h => h
  | stmt q k ih =>
    intro ses' hsuffix h env db hsince
    have hs := h env db hsince
    revert hs
    cases he : exec env db ses' q with
    | blocked => exact fun _ => trivial
    | error e => exact fun _ => trivial
    | ok r ses'' db' =>
      intro hs
      refine ⟨hs.1, ih r (hx.2 r) ses'' ?_ hs.2⟩
      rcases exec_cases he with ⟨-, -, hg⟩ | ⟨hq, -, -⟩ | ⟨hq, -, -⟩
      · cases hg with
        | same => exact hsuffix
        | takes _ _ => exact hsuffix.trans (List.suffix_cons _ _)
      · exact absurd hq hx.1.2
      · exact absurd hq hx.1.1

/-- A program that leaves its transaction open has nothing to show, but for what it noted. -/
theorem Spec.wp_of_stays {P : Spec R K W Req ε α} {req : Req} {β : Type} {x : Prog R K W ε β}
    {ses : Session R K W} {Q : β → Session R K W → Prop} (hx : x.Emits Stmt.stays)
    (herr : ∀ e past, P.post req (.error e) past)
    (hQ : ∀ b ses', ses.tx.log <:+ ses'.tx.log → Q b ses') : P.Wp req x ses Q := by
  have htrue : ∀ ses, P.Wp req x ses fun _ _ => True := by
    clear hQ
    induction x with
    | ret b => exact fun _ => trivial
    | throw e => exact fun ses => herr e ses.past
    | stmt q k ih =>
      intro ses env db _
      cases exec env db ses q with
      | blocked => trivial
      | error e => trivial
      | ok r ses' db' => exact ⟨fun hq => absurd hq hx.1.1, ih r (hx.2 r) ses'⟩
  exact wp_mono (fun b ses' h => hQ b ses' h.2) (wp_stays hx (htrue ses))

/-! ## Rows that change -/

/-- **A row that changes is locked by the session that changes it.** -/
theorem locked_of_changed (h₀ : s₀.threads = []) {k : K} (hm : AtStep S s₀ ls m s)
    (hn : AtStep S s₀ ls n s') (hmn : m ≤ n) (hne : s'.db.get k ≠ s.db.get k) :
    ∃ p sp j tj l lock, m ≤ p ∧ p < n ∧ AtStep S s₀ ls p sp ∧ ls[p]? = some l ∧
      Commits sp l j tj ∧ lock ∈ tj.ses.tx.locks ∧ lock.key = k := by
  induction n generalizing s' with
  | zero =>
    obtain rfl := Nat.le_zero.1 hmn
    exact absurd (congrArg (fun x : Sys R Req ε α => x.db.get k) (hn.unique hm)) hne
  | succ n ih =>
    rcases Nat.lt_or_eq_of_le hmn with hlt | rfl
    swap
    · exact absurd (congrArg (fun x : Sys R Req ε α => x.db.get k) (hn.unique hm)) hne
    obtain ⟨s₁, l, hs₁, hl, hst⟩ := atStep_succ.1 hn
    by_cases hsame : s₁.db.get k = s.db.get k
    · -- the row changes in the last step
      have hchange : s'.db.get k ≠ s₁.db.get k := by rw [hsame]; exact hne
      have hlocks : LocksFree s₁ := hs₁.reach.invariant LocksFree
        (fun _ _ _ hfree hst _ => locksFree_step hfree hst)
        ⟨fun i th hi => by simp [h₀] at hi, fun i j ti tj _ hi => by simp [h₀] at hi⟩
      rcases step_cases hst with ⟨req, -, rfl⟩ | ⟨d, -, rfl⟩ | ⟨j, tj, t', db, hj, -, hmoves, rfl⟩
      · exact absurd rfl hchange
      · exact absurd rfl hchange
      · rcases Spec.Ok.moves_cases hj hmoves with hdb | hc
        · exact absurd (congrArg (fun d : Db R => d.get k) hdb) hchange
        · have hview := db_of_commits hc hst
          have hw : ∃ w ∈ tj.ses.tx.writes, w.target = k := by
            by_contra hno
            refine hchange ?_
            rw [hview]
            exact Tx.view_get (fun w hw ht => hno ⟨w, hw, ht⟩) _
          obtain ⟨w, hw, rfl⟩ := hw
          obtain ⟨lock, hlock, hkey, -, -⟩ := hlocks.covered j tj hj w hw
          exact ⟨n, s₁, j, tj, l, lock, Nat.lt_succ_iff.1 hlt, Nat.lt_succ_self n, hs₁, hl, hc,
            hlock, hkey⟩
    · obtain ⟨p, sp, j, tj, l', lock, hmp, hpn, hrest⟩ := ih hs₁ (Nat.lt_succ_iff.1 hlt) hsame
      exact ⟨p, sp, j, tj, l', lock, hmp, Nat.lt_succ_of_lt hpn, hrest⟩

/-! ## Rows that are passed over -/

/-- Another session than `i` holds a lock on the row under `k`. -/
def HeldByOther (s : Sys R Req ε α) (i : Nat) (k : K) : Prop :=
  ∃ j tj lock, j ≠ i ∧ s.threads[j]? = some tj ∧ lock ∈ tj.ses.tx.locks ∧ lock.key = k

/-- A row that `tryLock` does not get is locked by another session, or it is not what it
asks for. -/
theorem passed_over_cases {th : Thread R K W Req ε α} {w : W} {k : K} {pick : Nat}
    {q : Stmt R K W} {r : q.Res} {ses : Session R K W} {db : Db R} (hq : q = .tryLock w k)
    (he : exec (s.env i th pick) s.db th.ses q = .ok r ses db)
    (hlocks : ∀ e log, ses.tx.log = e :: log → e.locks = []) :
    HeldByOther s i k ∨ ∀ x, (th.ses.tx.view s.db).get k = some x → holds w x = false := by
  subst hq
  simp only [exec] at he
  split at he
  · rename_i hbars
    simp only [Env.bars, List.any_cons, List.any_nil, Bool.or_false, List.any_eq_true] at hbars
    obtain ⟨lock, hheld, hconf⟩ := hbars
    obtain ⟨tj, hj, hlock⟩ := List.mem_flatMap.1 hheld
    obtain ⟨j, hji, hj⟩ := List.mem_eraseIdx_iff_getElem?.1 hj
    refine Or.inl ⟨j, tj, lock, hji, hj, hlock, ?_⟩
    simp only [Lock.conflicts, Bool.and_eq_true, decide_eq_true_eq] at hconf
    exact hconf.1.symm
  · refine Or.inr fun x hx => ?_
    rw [hx] at he
    dsimp only at he
    split at he
    · cases he
      simpa using hlocks _ _ rfl
    · rename_i hholds
      simpa using hholds

/-- **What is passed over was locked.**  A row that answered to the clause when thread `i`
ran its query, and that it then could not lock, was locked by another session in between. -/
theorem held_of_passed_over (hstart : s₀.threads = []) {mid : List (Entry R K W)}
    {e₀ : Entry R K W} {q p : Nat} {sq sp : Sys R Req ε α} {tq tp : Thread R K W Req ε α}
    (h₀ : NotedAt S s₀ ls i n tx e₀ earlier q sq tq)
    (h : NotedAt S s₀ ls i n tx e (mid ++ e₀ :: earlier) p sp tp) {w : W} {k : K}
    (hstmt : e.stmt = .tryLock w k) (hlocks : e.locks = [])
    (hwrites : ∀ x ∈ tx.writes, x.target ≠ k) {r : R} (hr : e₀.db.get k = some r)
    (hholds : holds w r = true) :
    ∃ m sm, q < m ∧ m ≤ p ∧ AtStep S s₀ ls m sm ∧ HeldByOther sm i k := by
  have hqp := h₀.order h
  obtain ⟨pick, x, ses, db, he, hlog⟩ := h.exec
  rcases passed_over_cases hstmt he (fun e' log hl => by
    rw [hlog] at hl
    rw [← (List.cons.inj hl).1]
    exact hlocks) with hheld | hnot
  · exact ⟨p, sp, hqp, le_rfl, h.runs.state, hheld⟩
  · -- the row is not any more what it was, so somebody has written it
    have hview : (tp.ses.tx.view sp.db).get k = sp.db.get k :=
      Tx.view_get (fun w hw => hwrites w (h.writes w hw)) _
    have hne : sp.db.get k ≠ sq.db.get k := by
      intro hsame
      rw [h₀.db, hr] at hsame
      rw [hnot r (hview.trans hsame)] at hholds
      cases hholds
    obtain ⟨m, sm, j, tj, l, lock, hqm, hmp, hsm, hl, hc, hlock, hkey⟩ :=
      locked_of_changed hstart h₀.runs.state h.runs.state hqp.le hne
    have hji : j ≠ i := by
      rintro rfl
      obtain ⟨s', hs'⟩ := h.runs.state.earlier (Nat.succ_le_of_lt hmp)
      obtain ⟨s₁, l', hs₁, hl', hst⟩ := atStep_succ.1 hs'
      rw [hs₁.unique hsm] at hst
      rw [hl, Option.some.injEq] at hl'
      subst hl'
      obtain ⟨th', hth', hses⟩ := thread_of_commits hc hst
      obtain ⟨t, ht, hsuffix⟩ := h₀.stays (m + 1) s' (Nat.lt_succ_of_le hqm)
        ((Nat.succ_le_of_lt hmp).trans h.lt.le) hs'
      rw [hth', Option.some.injEq] at ht
      subst ht
      rw [hses] at hsuffix
      simp at hsuffix
    have hlt : q < m := by
      refine Nat.lt_of_le_of_ne hqm ?_
      rintro rfl
      obtain ⟨pick, hrun⟩ := h₀.runs.label
      obtain ⟨-, -, pick', rfl⟩ := hc
      rw [hl, Option.some.injEq, Label.run.injEq] at hrun
      exact hji hrun.1
    exact ⟨m, sm, hlt, hmp.le, hsm, j, tj, lock, hji, hc.1, hlock, hkey⟩

end ReadCommitted
