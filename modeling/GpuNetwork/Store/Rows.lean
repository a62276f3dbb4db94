import GpuNetwork.Store.Soundness

/-!
# What every row satisfies

A property of single rows that every statement of a program keeps: the rows it writes have
it where the rows it has read have it.  A program can be checked against such a property by
itself, and then what it answers is known in every interleaving.

* `RowInvariant` — what a property of rows must survive.
* `Prog.Keeps` — the program writes rows with the property, and answers with `Q`.
* `keeps_bind`, `keeps_of_emits`, … — the rules.
* `keeps_of_reach` — the threads of a run keep it.
-/

namespace ReadCommitted

open Schema

variable {R K W Req ε α β : Type} [Schema R K W]
variable {S : Server R K W Req ε α} {s s' : Sys R Req ε α} {l : Label Req}

/-- An update and the actions of a foreign key leave the property to a row that has it. -/
structure RowInvariant (I : R → Prop) : Prop where
  merge : ∀ old new cur, I old → I new → I cur → I (merge old new cur)
  unref : ∀ k r r', I r → unref k r = some r' → I r'

/-- Every row of the store has the property. -/
def Db.Every (I : R → Prop) (db : Db R) : Prop := ∀ r ∈ db.rows, I r

/-- The write is of rows that have the property. -/
def Write.Keeps (I : R → Prop) : Write R K → Prop
  | .insert r => I r
  | .update old new => I old ∧ I new
  | .delete _ => True

/-- The statement writes rows that have the property. -/
def Stmt.Keeps (I : R → Prop) : Stmt R K W → Prop
  | .insert r => I r
  | .insertNew rs => ∀ r ∈ rs, I r
  | .upsert rs => ∀ r ∈ rs, I r
  | .update old new => I old ∧ I new
  | _ => True

/-- The rows the statement answers with have the property. -/
def Stmt.Gives (I : R → Prop) : (q : Stmt R K W) → q.Res → Prop
  | .select _, o => ∀ r ∈ o, I r
  | .selectAll _, rs => ∀ r ∈ rs, I r
  | .tryLock _ _, o => ∀ r ∈ o, I r
  | _, _ => True

/-- The program writes rows that have the property and answers with `Q`, as long as it reads
rows that have it. -/
def Prog.Keeps (I : R → Prop) (Q : α → Prop) : Prog R K W ε α → Prop
  | .ret a => Q a
  | .throw _ => True
  | .stmt q k => q.Keeps I ∧ ∀ x, q.Gives I x → (k x).Keeps I Q

variable {I : R → Prop} {Q : α → Prop}

/-! ## The rules -/

omit [Schema R K W] in
theorem keeps_bind {x : Prog R K W ε β} {f : β → Prog R K W ε α}
    (h : x.Keeps I fun b => (f b).Keeps I Q) : (x >>= f).Keeps I Q := by
  induction x with
  | ret b => exact h
  | throw e => trivial
  | stmt q k ih => exact ⟨h.1, fun r hr => ih r (h.2 r hr)⟩

omit [Schema R K W] in
/-- A statement and what comes after it. -/
theorem keeps_exec_bind {q : Stmt R K W} {f : q.Res → Prog R K W ε α} (hq : q.Keeps I)
    (hf : ∀ x, q.Gives I x → (f x).Keeps I Q) : (Prog.exec q >>= f).Keeps I Q := ⟨hq, hf⟩

omit [Schema R K W] in
theorem Prog.Keeps.mono {Q' : α → Prop} {x : Prog R K W ε α} (h : x.Keeps I Q)
    (hQ : ∀ a, Q a → Q' a) : x.Keeps I Q' := by
  induction x with
  | ret a => exact hQ a h
  | throw e => trivial
  | stmt q k ih => exact ⟨h.1, fun r hr => ih r (h.2 r hr)⟩

omit [Schema R K W] in
/-- A program whose statements write such rows whatever it reads. -/
theorem keeps_of_emits {x : Prog R K W ε α} (h : x.Emits (Stmt.Keeps I)) (hQ : ∀ a, Q a) :
    x.Keeps I Q := by
  induction x with
  | ret a => exact hQ a
  | throw e => trivial
  | stmt q k ih => exact ⟨h.1, fun r _ => ih r (h.2 r)⟩

omit [Schema R K W] in
theorem Stmt.keeps_of_reads {q : Stmt R K W} (h : q.reads = true) : q.Keeps I := by
  cases q with
  | now => trivial
  | random => trivial
  | txTime => trivial
  | select w => trivial
  | selectAll w => trivial
  | _ => cases h

/-! ## The store -/

variable [DecidableEq K]

theorem RowInvariant.every_apply (hI : RowInvariant I) {db : Db R} (hdb : db.Every I)
    {w : Write R K} (hw : w.Keeps I) : (w.apply db).Every I := by
  cases w with
  | insert r =>
    intro x hx
    rcases Db.get_insert_cases (Db.get_of_mem hx) with hx | ⟨-, rfl, -⟩
    · exact hdb x (Db.mem_of_get hx)
    · exact hw
  | update old new =>
    intro x hx
    obtain ⟨r, hr, rfl⟩ := List.mem_map.1 hx
    by_cases hk : key r = key old
    · rw [if_pos hk]
      exact hI.merge _ _ _ hw.1 hw.2 (hdb r hr)
    · rw [if_neg hk]
      exact hdb r hr
  | delete k => exact fun x hx => hdb x (List.mem_filter.1 hx).1

theorem RowInvariant.every_applyAll (hI : RowInvariant I) {ws : List (Write R K)} {db : Db R}
    (hdb : db.Every I) (hws : ∀ w ∈ ws, w.Keeps I) : (applyAll ws db).Every I := by
  induction ws generalizing db with
  | nil => exact hdb
  | cons w ws ih =>
    obtain ⟨hw, hws⟩ := List.forall_mem_cons.1 hws
    exact ih (hI.every_apply hdb hw) hws

omit [DecidableEq K] in
theorem Db.Every.matching {db : Db R} (hdb : db.Every I) (w : W) : ∀ r ∈ matching db w, I r :=
  fun r hr => hdb r (Spec.mem_matching.1 hr).1

theorem Db.Every.upsertWrite {db : Db R} (hdb : db.Every I) {r : R} (hr : I r) :
    (upsertWrite db r).Keeps I := by
  unfold ReadCommitted.upsertWrite
  split
  · rename_i old hold
    exact ⟨hdb old (Db.mem_of_get hold), hr⟩
  · exact hr

omit [DecidableEq K] in
theorem RowInvariant.unrefWrite (hI : RowInvariant I) {r : R} (hr : I r) (k : K) :
    (unrefWrite k r).Keeps I := by
  unfold ReadCommitted.unrefWrite
  split
  · rename_i r' hr'
    exact ⟨hr, hI.unref k r r' hr hr'⟩
  · trivial

/-- What a statement writes has the property. -/
theorem RowInvariant.keeps_issues (hI : RowInvariant I) {view : Db R} (hview : view.Every I)
    {q : Stmt R K W} (hq : q.Keeps I) {w : Write R K} (hw : q.Issues view w) : w.Keeps I := by
  cases hw with
  | insert hfits => exact hq
  | insertNew hr hfits => exact hq _ (mem_of_mem_newRows hr)
  | upsert hr hfits => exact hview.upsertWrite (hq _ hr)
  | update hfits => exact hq
  | unref hr => exact hI.unrefWrite (hview _ (List.mem_filter.1 hr).1) _
  | delete => trivial

/-- What a statement answers with has the property. -/
theorem gives_exec {env : Env R K} {db db' : Db R} {ses ses' : Session R K W} {q : Stmt R K W}
    {x : q.Res} (h : exec env db ses q = .ok x ses' db') (hview : (ses.tx.view db).Every I) :
    q.Gives I x := by
  cases q with
  | select w =>
    cases h
    exact fun r hr => hview.matching w r (List.mem_of_getElem? hr)
  | selectAll w =>
    cases h
    exact hview.matching w
  | tryLock w k =>
    simp only [exec] at h
    split at h
    · cases h; exact fun r hr => absurd hr (by simp)
    · split at h
      · cases h; exact fun r hr => absurd hr (by simp)
      · rename_i r hr
        split at h <;> cases h
        · rintro r' hr'
          cases hr'
          exact hview _ (Db.mem_of_get hr)
        · exact fun r hr => absurd hr (by simp)
  | _ => trivial

/-- **A statement keeps the property**, and answers with rows that have it. -/
theorem RowInvariant.keeps_exec (hI : RowInvariant I) {env : Env R K} {db db' : Db R}
    {ses ses' : Session R K W} {q : Stmt R K W} {x : q.Res}
    (h : exec env db ses q = .ok x ses' db') (hdb : db.Every I)
    (hws : ∀ w ∈ ses.tx.writes, w.Keeps I) (hq : q.Keeps I) :
    q.Gives I x ∧ ∀ w ∈ ses'.tx.writes, w.Keeps I := by
  have hview : (ses.tx.view db).Every I := hI.every_applyAll hdb hws
  refine ⟨gives_exec h hview, fun w hw => ?_⟩
  rcases exec_issues h hw with hold | hnew
  · exact hws w hold
  · exact hI.keeps_issues hview hq hnew

/-! ## Runs -/

/-- What the thread is going to write, and has written, has the property. -/
structure Thread.Keeps (I : R → Prop) (Q : Req → α → Prop) (th : Thread R K W Req ε α) : Prop where
  prog : th.prog.Keeps I (Q th.req)
  writes : ∀ w ∈ th.ses.tx.writes, w.Keeps I

theorem Moves.keeps (hI : RowInvariant I) {Q : Req → α → Prop} {i : Nat} {db : Db R}
    {th th' : Thread R K W Req ε α} (hm : Moves S s i th l db th') (hdb : s.db.Every I)
    (h : th.Keeps I Q) : th'.Keeps I Q := by
  cases hm with
  | runs hp he =>
    have hprog := h.prog
    rw [hp] at hprog
    obtain ⟨hgives, hws⟩ := hI.keeps_exec he hdb h.writes hprog.1
    exact ⟨hprog.2 _ hgives, hws⟩
  | refused _ _ => exact ⟨trivial, fun w hw => by simp at hw⟩
  | closes _ => exact ⟨h.prog, fun w hw => by simp at hw⟩

/-- **In every interleaving the threads keep the property**, those whose handlers do, while
every row of the store has it. -/
theorem keeps_of_reach (hI : RowInvariant I) {T : Terms R Req ε α} {s₀ : Sys R Req ε α}
    {A : Req → Prop} {Q : Req → α → Prop} (hserve : ∀ req, A req → (S.handle req).Keeps I (Q req))
    (hdb : ∀ s, Reach S T s₀ s → s.db.Every I) (h₀ : s₀.threads = []) (h : Reach S T s₀ s) :
    ∀ th ∈ s.threads, A th.req → th.Keeps I Q := by
  induction h with
  | refl => simp [h₀]
  | tail hr hs ih =>
    obtain ⟨l, hs, -⟩ := hs
    intro th hth hA
    rcases step_cases hs with ⟨req, rfl, rfl⟩ | ⟨d, -, rfl⟩ | ⟨i, t, t', db, hi, -, hmv, rfl⟩
    · rcases List.mem_append.1 hth with hth | hth
      · exact ih th hth hA
      · rw [List.mem_singleton.1 hth] at hA ⊢
        exact ⟨hserve req hA, fun w hw => by simp at hw⟩
    · exact ih th hth hA
    · rcases List.mem_or_eq_of_mem_set hth with hth | rfl
      · exact ih th hth hA
      · rw [hmv.req_eq] at hA
        exact hmv.keeps hI (hdb _ hr) (ih t (List.mem_of_getElem? hi) hA)

end ReadCommitted
