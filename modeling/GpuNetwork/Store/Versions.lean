import GpuNetwork.Store.Soundness

/-!
# Where rows come from

A row changes by updates, so that the store holds versions of the rows that were inserted.

* `Versions` — a relation that every update keeps.
* `version_of_mem_applyAll`, `exists_version_of_mem_applyAll` — a row and its versions before
  and after a transaction.
* `Sys.Inserted`, `inserted_mono` — what has been inserted, as the run remembers it.
* `origin_of_step`, `origin_since` — every row is a version of one that was inserted.
-/

namespace ReadCommitted

open Schema Spec

variable {R K W Req ε α : Type} [Schema R K W]

/-- `V a b`: the row `b` is a version of `a`. -/
structure Versions (V : R → R → Prop) : Prop where
  refl : ∀ a, V a a
  trans : ∀ {a b c}, V a b → V b c → V a c
  merge : ∀ old new cur, V cur (Schema.merge old new cur)

variable [DecidableEq K] {V : R → R → Prop}

/-- A row that is not deleted is there in a later version. -/
theorem version_of_mem_applyAll (hV : Versions V) {ws : List (Write R K)}
    (hw : ∀ w ∈ ws, ∀ k, w ≠ .delete k) {db : Db R} {y : R} (hy : y ∈ db.rows) :
    ∃ x ∈ (applyAll ws db).rows, V y x := by
  induction ws generalizing db y with
  | nil => exact ⟨y, hy, hV.refl y⟩
  | cons w ws ih =>
    have hrest : ∀ v ∈ ws, ∀ k, v ≠ .delete k := fun v hv => hw v (List.mem_cons_of_mem _ hv)
    obtain ⟨x, hx, hyx⟩ : ∃ x ∈ (w.apply db).rows, V y x := by
      have hget : (w.apply db).get (key y) = w.on (key y) (some y) := by
        rw [Write.get_apply, Db.get_of_mem hy]
      by_cases ht : w.target = key y
      · cases w with
        | insert r =>
          have hon : (Write.insert r : Write R K).on (key y) (some y) = some y := if_pos ht
          exact ⟨y, Db.mem_of_get (hget.trans hon), hV.refl y⟩
        | update old new =>
          refine ⟨merge old new y, Db.mem_of_get (hget.trans ?_), hV.merge old new y⟩
          exact Write.on_update_of_some ht
        | delete k => exact absurd rfl (hw _ (List.mem_cons_self ..) k)
      · exact ⟨y, Db.mem_of_get (hget.trans (Write.on_of_ne ht _)), hV.refl y⟩
    obtain ⟨z, hz, hxz⟩ := ih hrest hx
    exact ⟨z, hz, hV.trans hyx hxz⟩

/-- A row of the store was there in an earlier version, or has been inserted. -/
theorem exists_version_of_mem_applyAll (hV : Versions V) {ws : List (Write R K)} {db : Db R}
    {x : R} (hx : x ∈ (applyAll ws db).rows) : ∃ y, V y x ∧ (y ∈ db.rows ∨ .insert y ∈ ws) := by
  induction ws generalizing db with
  | nil => exact ⟨x, hV.refl x, Or.inl hx⟩
  | cons w ws ih =>
    obtain ⟨y, hyx, hy | hy⟩ := ih hx
    · have hget := Db.get_of_mem hy
      rw [Write.get_apply] at hget
      by_cases ht : w.target = key y
      · cases w with
        | insert r =>
          have hon : (Write.insert r : Write R K).on (key y) (db.get (key y)) =
              (db.get (key y)).or (some r) := if_pos ht
          rw [hon] at hget
          cases hold : db.get (key y) with
          | some y' =>
            rw [hold] at hget
            cases hget
            exact ⟨y, hyx, Or.inl (Db.mem_of_get hold)⟩
          | none =>
            rw [hold] at hget
            cases hget
            exact ⟨y, hyx, Or.inr (List.mem_cons_self ..)⟩
        | update old new =>
          rw [Write.on_update ht] at hget
          obtain ⟨cur, hcur, rfl⟩ := Option.map_eq_some_iff.1 hget
          exact ⟨cur, hV.trans (hV.merge old new cur) hyx, Or.inl (Db.mem_of_get hcur)⟩
        | delete k =>
          have hon : (Write.delete k : Write R K).on (key y) (db.get (key y)) = none := if_pos ht
          rw [hon] at hget
          cases hget
      · rw [Write.on_of_ne ht] at hget
        exact ⟨y, hyx, Or.inl (Db.mem_of_get hget)⟩
    · exact ⟨y, hyx, Or.inr (List.mem_cons_of_mem _ hy)⟩

/-! ## Runs -/

variable {S : Server R K W Req ε α} {s s' : Sys R Req ε α} {l : Label Req}

omit [DecidableEq K] in
/-- The commit number `m` of thread `i` has inserted the row. -/
def Sys.Inserted (s : Sys R Req ε α) (i m : Nat) (r : R) : Prop :=
  ∃ th tx, s.threads[i]? = some th ∧ th.ses.past[m]? = some tx ∧ .insert r ∈ tx.writes

/-- What has been committed stays so. -/
theorem past_mono (hs : step S s l = some s') {i : Nat} {th : Thread R K W Req ε α}
    (hi : s.threads[i]? = some th) :
    ∃ th', s'.threads[i]? = some th' ∧ th'.req = th.req ∧ th.ses.past <+: th'.ses.past := by
  obtain ⟨th', hi'⟩ := thread_after hs hi
  rcases past_cases hs hi' with ⟨hnone, -⟩ | ⟨tj, hj, hreq, hpast⟩
  · rw [hi] at hnone
    cases hnone
  · rw [hi, Option.some.injEq] at hj
    subst hj
    refine ⟨th', hi', hreq, ?_⟩
    rcases hpast with hpast | ⟨-, hpast⟩
    · exact hpast ▸ List.prefix_refl _
    · exact hpast ▸ List.prefix_append _ _

theorem inserted_mono (hs : step S s l = some s') {i m : Nat} {r : R} (h : s.Inserted i m r) :
    s'.Inserted i m r := by
  obtain ⟨th, tx, hi, hm, hw⟩ := h
  obtain ⟨th', hi', -, hpast⟩ := past_mono hs hi
  refine ⟨th', tx, hi', ?_, hw⟩
  obtain ⟨rest, hrest⟩ := hpast
  rw [← hrest, List.getElem?_append_left (List.getElem?_eq_some_iff.1 hm).1]
  exact hm

/-- **A row of a step's store** was there in an earlier version, or the step has inserted
it. -/
theorem origin_of_step (hV : Versions V) (hs : step S s l = some s') {x : R}
    (hx : x ∈ s'.db.rows) : ∃ y, V y x ∧ (y ∈ s.db.rows ∨
      ∃ i m, s'.Inserted i m y ∧ ∀ r, ¬ s.Inserted i m r) := by
  rcases step_cases hs with ⟨req, -, rfl⟩ | ⟨d, -, rfl⟩ | ⟨i, th, th', db, hi, -, hm, rfl⟩
  · exact ⟨x, hV.refl x, Or.inl hx⟩
  · exact ⟨x, hV.refl x, Or.inl hx⟩
  · rcases Ok.moves_cases hi hm with rfl | hc
    · exact ⟨x, hV.refl x, Or.inl hx⟩
    · have hview : db = th.ses.tx.view s.db := db_of_commits hc hs
      rw [show x ∈ db.rows ↔ x ∈ (th.ses.tx.view s.db).rows by rw [hview]] at hx
      obtain ⟨y, hyx, hy | hy⟩ := exists_version_of_mem_applyAll hV hx
      · exact ⟨y, hyx, Or.inl hy⟩
      · obtain ⟨th₁, hi₁, hses⟩ := thread_of_commits hc hs
        refine ⟨y, hyx, Or.inr ⟨i, th.ses.past.length, ⟨th₁, th.ses.tx, hi₁, ?_, hy⟩, ?_⟩⟩
        · rw [hses]
          simp [Session.committed]
        · rintro r ⟨th₂, tx, hi₂, hm₂, -⟩
          rw [hi, Option.some.injEq] at hi₂
          subst hi₂
          rw [List.getElem?_eq_none le_rfl] at hm₂
          cases hm₂

theorem inserted_of_reach {T : Terms R Req ε α} (h : Reach S T s s') {i m : Nat} {r : R}
    (hi : s.Inserted i m r) : s'.Inserted i m r :=
  h.invariant (fun s' => s'.Inserted i m r) (fun _ _ _ hI hs _ => inserted_mono hs hI) hi

/-- **Every row of a later store** is a version of a row that was there before, or of one
that has been inserted since. -/
theorem origin_since (hV : Versions V) {T : Terms R Req ε α} (h : Reach S T s s') :
    ∀ x ∈ s'.db.rows, ∃ y, V y x ∧ (y ∈ s.db.rows ∨
      ∃ i m, s'.Inserted i m y ∧ ∀ r, ¬ s.Inserted i m r) := by
  induction h with
  | refl => exact fun x hx => ⟨x, hV.refl x, Or.inl hx⟩
  | tail hr hs ih =>
    obtain ⟨l, hst, -⟩ := hs
    intro x hx
    obtain ⟨y, hyx, hy | ⟨i, m, hnew, hfresh⟩⟩ := origin_of_step hV hst hx
    · obtain ⟨z, hzy, hz | ⟨i, m, hold, hfresh⟩⟩ := ih y hy
      · exact ⟨z, hV.trans hzy hyx, Or.inl hz⟩
      · exact ⟨z, hV.trans hzy hyx, Or.inr ⟨i, m, inserted_mono hst hold, hfresh⟩⟩
    · refine ⟨y, hyx, Or.inr ⟨i, m, hnew, fun r hr' => hfresh r ?_⟩⟩
      exact inserted_of_reach (S := S) hr hr'

end ReadCommitted
