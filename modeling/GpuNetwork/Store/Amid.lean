import GpuNetwork.Store.Soundness

/-!
# What a request learns

A request that reads may be answered by any store that is there when it reads, and what it
returns is made from these answers.  `Prog.Amid` says what a program can return while every
store it meets satisfies a property.

* `Prog.Amid` — the program returns with `Q`, amid stores that satisfy `D`.
* `amid_bind`, `amid_select`, … — the rules.
* `amid_step` — a thread stays so, from one store that satisfies `D` to the next.
* `Learns`, `learns_step` — so do all that arrive meanwhile.
-/

namespace ReadCommitted

open Schema

variable {R K W Req ε α β : Type} [Schema R K W] [DecidableEq K]

/-- The program returns only what satisfies `Q`, whatever it finds in stores that satisfy
`D`. -/
def Prog.Amid (D : Db R → Prop) : Prog R K W ε α → Session R K W →
    (α → Session R K W → Prop) → Prop
  | .ret a, ses, Q => Q a ses
  | .throw _, _, _ => True
  | .stmt q k, ses, Q =>
    ∀ (env : Env R K) (db : Db R), D db →
      match ReadCommitted.exec env db ses q with
      | .blocked => True
      | .error _ => True
      | .ok r ses' _ => (k r).Amid D ses' Q

variable {D : Db R → Prop} {ses : Session R K W} {Q : α → Session R K W → Prop}

/-! ## The rules -/

@[simp] theorem amid_ret {a : α} : (Prog.ret a : Prog R K W ε α).Amid D ses Q ↔ Q a ses := Iff.rfl

theorem amid_bind {x : Prog R K W ε β} {f : β → Prog R K W ε α}
    (h : x.Amid D ses fun b ses' => (f b).Amid D ses' Q) : (x >>= f).Amid D ses Q := by
  induction x generalizing ses with
  | ret b => exact h
  | throw e => trivial
  | stmt q k ih =>
    intro env db hdb
    have hs := h env db hdb
    revert hs
    cases exec env db ses q with
    | blocked => exact fun _ => trivial
    | error e => exact fun _ => trivial
    | ok r ses' db' => exact fun hs => ih r hs

theorem amid_mono {Q' : α → Session R K W → Prop} (hQ : ∀ a ses', Q a ses' → Q' a ses')
    {x : Prog R K W ε α} (h : x.Amid D ses Q) : x.Amid D ses Q' := by
  induction x generalizing ses with
  | ret a => exact hQ a ses h
  | throw e => trivial
  | stmt q k ih =>
    intro env db hdb
    have hs := h env db hdb
    revert hs
    cases exec env db ses q with
    | blocked => exact fun _ => trivial
    | error e => exact fun _ => trivial
    | ok r ses' db' => exact fun hs => ih r hs

/-- A program of which nothing is asked. -/
theorem amid_of_any {x : Prog R K W ε α} (hQ : ∀ a ses', Q a ses') : x.Amid D ses Q := by
  induction x generalizing ses with
  | ret a => exact hQ a ses
  | throw e => trivial
  | stmt q k ih =>
    intro env db _
    cases exec env db ses q with
    | blocked => trivial
    | error e => trivial
    | ok r ses' db' => exact ih r

theorem amid_commit {k : Unit → Prog R K W ε α} (h : (k ()).Amid D ses.committed Q) :
    (Prog.stmt .commit k).Amid D ses Q :=
  fun _ _ _ => h

theorem amid_now {k : Time → Prog R K W ε α} (h : ∀ t, (k t).Amid D ses Q) :
    (Prog.stmt .now k).Amid D ses Q :=
  fun _ _ _ => h _

/-- A `SELECT` of a transaction that has not written anything finds a row, if there is one. -/
theorem amid_select {w : W} {k : Option R → Prog R K W ε α} (hw : ses.tx.writes = [])
    (h : ∀ db o ses', D db → (∀ r ∈ o, r ∈ db.rows ∧ holds w r = true) →
      (o = none → ∀ r ∈ db.rows, holds w r = false) → ses'.tx.writes = [] →
      (k o).Amid D ses' Q) : (Prog.stmt (.select w) k).Amid D ses Q := by
  intro env db hdb
  have hview : matching (ses.tx.view db) w = matching db w := by rw [Tx.view_of_no_writes hw]
  refine h db _ (ses.reads (.select w) db) hdb (fun r hr => ?_) (fun hnone r hr => ?_) ?_
  · rw [hview] at hr
    exact Spec.mem_matching.1 (List.mem_of_getElem? hr)
  · rw [hview] at hnone
    rcases Spec.pickRow_cases env.pick (matching db w) with ⟨-, hnil⟩ | ⟨x, -, hx⟩
    · by_contra hh
      have hmem := Spec.mem_matching.2 ⟨hr, Bool.not_eq_false _ ▸ hh⟩
      rw [hnil] at hmem
      cases hmem
    · rw [hx] at hnone
      cases hnone
  · exact (Session.adds_takes (.select w) db [] []).writes.trans (by rw [hw]; rfl)

/-- A program that only reads, in a transaction that has not written anything. -/
theorem amid_of_reads {x : Prog R K W ε α} (hx : x.Emits fun q => q.reads = true)
    (hw : ses.tx.writes = []) (hQ : ∀ a ses', ses'.tx.writes = [] → Q a ses') :
    x.Amid D ses Q := by
  induction x generalizing ses with
  | ret a => exact hQ a ses hw
  | throw e => trivial
  | stmt q k ih =>
    intro env db _
    have hstep : ∀ r ses' db', exec env db ses q = .ok r ses' db' → ses'.tx.writes = [] := by
      intro r ses' db' he
      have hread := hx.1
      cases q with
      | now => cases he; exact hw
      | random => cases he; exact hw
      | txTime => cases he; exact hw
      | select w =>
        cases he
        exact (Session.adds_takes _ db [] []).writes.trans (by rw [hw]; rfl)
      | selectAll w =>
        cases he
        exact (Session.adds_takes _ db [] []).writes.trans (by rw [hw]; rfl)
      | _ => cases hread
    cases he : exec env db ses q with
    | blocked => trivial
    | error e => trivial
    | ok r ses' db' => exact ih r (hx.2 r) (hstep r ses' db' he)

/-! ## Runs -/

variable {S : Server R K W Req ε α} {s s' : Sys R Req ε α} {l : Label Req}

theorem Moves.amid {Q : α → Prop} {i : Nat} {db : Db R} {th th' : Thread R K W Req ε α}
    (hm : Moves S s i th l db th') (hdb : D s.db) (h : th.prog.Amid D th.ses fun a _ => Q a) :
    th'.prog.Amid D th'.ses fun a _ => Q a := by
  cases hm with
  | runs hp he =>
    rename_i pick q k r ses b
    rw [hp] at h
    have hs := h (s.env i th pick) s.db hdb
    rw [he] at hs
    exact hs
  | refused hp _ => trivial
  | closes hf =>
    cases hp : th.prog with
    | ret a => rw [hp] at h; exact h
    | throw e => trivial
    | stmt q k => rw [hp] at hf; cases hf

/-- **A thread stays as it is said to be**, as long as the store does. -/
theorem amid_step {Q : α → Prop} (hs : step S s l = some s') {j : Nat}
    {tj tj' : Thread R K W Req ε α} (hj : s.threads[j]? = some tj)
    (hj' : s'.threads[j]? = some tj') (hdb : D s.db)
    (h : tj.prog.Amid D tj.ses fun a _ => Q a) : tj'.prog.Amid D tj'.ses fun a _ => Q a := by
  have hlt : j < s.threads.length := (List.getElem?_eq_some_iff.1 hj).1
  rcases step_cases hs with ⟨req, -, rfl⟩ | ⟨d, -, rfl⟩ | ⟨i, th, th', db, hi, -, hm, rfl⟩
  · rw [List.getElem?_append_left hlt, hj, Option.some.injEq] at hj'
    exact hj' ▸ h
  · rw [hj, Option.some.injEq] at hj'
    exact hj' ▸ h
  · rcases getElem?_set_cases hj' with ⟨rfl, rfl⟩ | ⟨-, hold⟩
    · rw [hi, Option.some.injEq] at hj
      subst hj
      exact hm.amid hdb h
    · rw [hj, Option.some.injEq] at hold
      exact hold ▸ h

/-- The requests that have arrived from the place `m` on return only what satisfies `Q`, as
long as the store satisfies `D`. -/
def Learns (D : Db R → Prop) (Q : Req → α → Prop) (m : Nat) (s : Sys R Req ε α) : Prop :=
  ∀ (i : Nat) (th : Thread R K W Req ε α), m ≤ i → s.threads[i]? = some th →
    th.prog.Amid D th.ses fun a _ => Q th.req a

/-- **What the requests of a server can learn**, if each of them learns only that when it is
alone with such stores. -/
theorem learns_step {Q : Req → α → Prop}
    (hhandle : ∀ req, (S.handle req).Amid D {} fun a _ => Q req a) {m : Nat}
    (hs : step S s l = some s') (hdb : D s.db) (h : Learns D Q m s) : Learns D Q m s' := by
  intro i th' hle hi
  rcases step_cases hs with ⟨req, -, rfl⟩ | ⟨d, -, rfl⟩ | ⟨j, th, th₁, db, hj, -, hm, rfl⟩
  · rcases getElem?_concat_cases hi with hi | ⟨-, rfl⟩
    · exact h i th' hle hi
    · exact hhandle req
  · exact h i th' hle hi
  · rcases getElem?_set_cases hi with ⟨rfl, rfl⟩ | ⟨-, hold⟩
    · rw [hm.req_eq]
      exact hm.amid hdb (h i th hle hj)
    · exact h i th' hle hold

end ReadCommitted
