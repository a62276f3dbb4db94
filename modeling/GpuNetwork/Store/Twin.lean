import GpuNetwork.Store.Alone

/-!
# Two programs side by side

Two programs that run alone, each on a store of its own, and find the same besides: the same
readings of the clock, the same choices.  They may start as one program and part where a
statement tells the stores apart, as long as they come to the same.

* `Prog.Twin` — the programs come to the same.
* `twin_bind`, `twin_select`, `twin_update`, … — the rules.
* `Prog.Twin.same` — what follows for the answers and the stores.
* `matching_eq` — a listing is the same where the rows are, whatever their order.
-/

namespace ReadCommitted

open Schema

variable {R K W ε α β : Type} [Schema R K W] [DecidableEq K]
variable {sqlError : SqlError → ε} {w v w' v' : World R K W}

/-- The two programs return the same value in their worlds and leave worlds with `Q`, or they
raise the same error and leave worlds with `E`. -/
def Prog.Twin (sqlError : SqlError → ε) (x y : Prog R K W ε α) (w v : World R K W)
    (Q : α → World R K W → World R K W → Prop) (E : World R K W → World R K W → Prop) : Prop :=
  match x.alone sqlError w, y.alone sqlError v with
  | (.ok a, w'), (.ok b, v') => a = b ∧ Q a w' v'
  | (.error e, w'), (.error f, v') => e = f ∧ E w' v'
  | _, _ => False

variable {Q : α → World R K W → World R K W → Prop} {E : World R K W → World R K W → Prop}

theorem twin_ret {a : α} (h : Q a w v) :
    Prog.Twin sqlError (.ret a) (.ret a : Prog R K W ε α) w v Q E := ⟨rfl, h⟩

theorem twin_throw {e : ε} (h : E w v) :
    Prog.Twin sqlError (.throw e) (.throw e : Prog R K W ε α) w v Q E := ⟨rfl, h⟩

/-- Where it is known what the programs come to. -/
theorem twin_of_ok {x y : Prog R K W ε α} {a : α} (hw : x.alone sqlError w = (.ok a, w'))
    (hv : y.alone sqlError v = (.ok a, v')) (h : Q a w' v') : x.Twin sqlError y w v Q E := by
  unfold Prog.Twin
  rw [hw, hv]
  exact ⟨rfl, h⟩

theorem Prog.Twin.mono {x y : Prog R K W ε α}
    {Q' : α → World R K W → World R K W → Prop} (h : x.Twin sqlError y w v Q E)
    (hQ : ∀ a w' v', Q a w' v' → Q' a w' v') : x.Twin sqlError y w v Q' E := by
  unfold Prog.Twin at h ⊢
  split at h
  · exact ⟨h.1, hQ _ _ _ h.2⟩
  · exact h
  · exact h.elim

/-- A program without statements. -/
theorem twin_of_pure {x : Prog R K W ε α} (hx : x.Emits fun _ => False) (hQ : ∀ a, Q a w v)
    (hE : E w v) : x.Twin sqlError x w v Q E := by
  cases x with
  | ret a => exact twin_ret (hQ a)
  | throw e => exact twin_throw hE
  | stmt q k => exact hx.1.elim

/-- One program after the other. -/
theorem twin_bind {x y : Prog R K W ε β} {f g : β → Prog R K W ε α}
    (h : x.Twin sqlError y w v (fun b w' v' => (f b).Twin sqlError (g b) w' v' Q E) E) :
    (x >>= f).Twin sqlError (y >>= g) w v Q E := by
  unfold Prog.Twin at h ⊢
  rw [alone_bind, alone_bind]
  generalize x.alone sqlError w = p at h ⊢
  generalize y.alone sqlError v = q at h ⊢
  obtain ⟨_ | a, w'⟩ := p <;> obtain ⟨_ | b, v'⟩ := q
  · exact h
  · exact h.elim
  · exact h.elim
  · obtain ⟨rfl, h⟩ := h
    exact h

theorem twin_now {k l : Time → Prog R K W ε α} (hm : v.moments 0 = w.moments 0)
    (h : (k (w.moments 0).now).Twin sqlError (l (w.moments 0).now) (w.next w.db w.ses)
      (v.next v.db v.ses) Q E) :
    (Prog.stmt .now k).Twin sqlError (Prog.stmt .now l) w v Q E := by
  unfold Prog.Twin at h ⊢
  rw [alone_now, alone_now, hm]
  exact h

theorem twin_random {k l : Nat → Prog R K W ε α} (hm : v.moments 0 = w.moments 0)
    (h : (k (w.moments 0).pick).Twin sqlError (l (w.moments 0).pick) (w.next w.db w.ses)
      (v.next v.db v.ses) Q E) :
    (Prog.stmt .random k).Twin sqlError (Prog.stmt .random l) w v Q E := by
  unfold Prog.Twin at h ⊢
  rw [alone_random, alone_random, hm]
  exact h

theorem twin_txTime {k l : Time → Prog R K W ε α} (hm : v.moments 0 = w.moments 0)
    (h : (k (w.moments 0).begunAt).Twin sqlError (l (w.moments 0).begunAt) (w.next w.db w.ses)
      (v.next v.db v.ses) Q E) :
    (Prog.stmt .txTime k).Twin sqlError (Prog.stmt .txTime l) w v Q E := by
  unfold Prog.Twin at h ⊢
  rw [alone_txTime, alone_txTime, hm]
  exact h

/-- A `SELECT` may find different rows; the programs then go on with these. -/
theorem twin_select {wh : W} {k l : Option R → Prog R K W ε α} {o p : Option R}
    (hw : pickRow (w.moments 0).pick (matching (w.ses.tx.view w.db) wh) = o)
    (hv : pickRow (v.moments 0).pick (matching (v.ses.tx.view v.db) wh) = p)
    (h : (k o).Twin sqlError (l p) (w.reads (.select wh)) (v.reads (.select wh)) Q E) :
    (Prog.stmt (.select wh) k).Twin sqlError (Prog.stmt (.select wh) l) w v Q E := by
  unfold Prog.Twin at h ⊢
  rw [alone_select, alone_select, hw, hv]
  exact h

theorem twin_selectAll {wh : W} {k l : List R → Prog R K W ε α}
    (h : (k (matching (w.ses.tx.view w.db) wh)).Twin sqlError
      (l (matching (v.ses.tx.view v.db) wh)) (w.reads (.selectAll wh)) (v.reads (.selectAll wh))
      Q E) : (Prog.stmt (.selectAll wh) k).Twin sqlError (Prog.stmt (.selectAll wh) l) w v Q E := h

/-- An `UPDATE` that matches a row in both worlds and changes no reference. -/
theorem twin_update {old new a b : R} (hw : (w.ses.tx.view w.db).get (key old) = some a)
    (hv : (v.ses.tx.view v.db).get (key old) = some b) (hrefs : newRefs old new = [])
    {k l : Bool → Prog R K W ε α}
    (hE : E (w.next w.db w.ses.reset) (v.next v.db v.ses.reset))
    (h : (k true).Twin sqlError (l true)
      (w.next w.db (w.ses.takes (.update old new) w.db [.update old new] (updateLocks old new)))
      (v.next v.db (v.ses.takes (.update old new) v.db [.update old new] (updateLocks old new)))
      Q E) :
    (Prog.stmt (.update old new) k).Twin sqlError (Prog.stmt (.update old new) l) w v Q E := by
  unfold Prog.Twin at h ⊢
  by_cases hstore : storableOver old new = true
  · rw [alone_update hw hstore hrefs, alone_update hv hstore hrefs]
    exact h
  · rw [Prog.alone, Prog.alone]
    simp only [exec, hw, hv, if_pos (by simpa using hstore : storableOver old new = false)]
    exact ⟨trivial, hE⟩

/-- An `INSERT` of a row that clashes with none and whose references are there, in both
worlds. -/
theorem twin_insert {r : R} {k l : Unit → Prog R K W ε α}
    (hw : occupied (w.ses.tx.view w.db) r = false)
    (hv : occupied (v.ses.tx.view v.db) r = false)
    (hrw : present (w.ses.tx.view w.db) ((refs r).map Prod.snd) = true)
    (hrv : present (v.ses.tx.view v.db) ((refs r).map Prod.snd) = true)
    (hE : E (w.next w.db w.ses.reset) (v.next v.db v.ses.reset))
    (h : (k ()).Twin sqlError (l ())
      (w.next w.db (w.ses.takes (.insert r) w.db [.insert r] (insertLocks [r])))
      (v.next v.db (v.ses.takes (.insert r) v.db [.insert r] (insertLocks [r]))) Q E) :
    (Prog.stmt (.insert r) k).Twin sqlError (Prog.stmt (.insert r) l) w v Q E := by
  unfold Prog.Twin at h ⊢
  rw [Prog.alone, Prog.alone]
  by_cases hstore : storable r = true
  · simpa [exec, hstore, hw, hv, hrw, hrv, pends_of_alone, bars_of_alone] using h
  · simp only [exec, if_pos (by simpa using hstore : storable r = false)]
    exact ⟨trivial, hE⟩

theorem twin_commit {k l : Unit → Prog R K W ε α}
    (h : (k ()).Twin sqlError (l ()) (w.next (w.ses.tx.view w.db) w.ses.committed)
      (v.next (v.ses.tx.view v.db) v.ses.committed) Q E) :
    (Prog.stmt .commit k).Twin sqlError (Prog.stmt .commit l) w v Q E := h

/-- **The answers are the same**, and what holds of the worlds in either case holds of them. -/
theorem Prog.Twin.same {I : World R K W → World R K W → Prop} {x y : Prog R K W ε α}
    (h : x.Twin sqlError y w v (fun _ => I) I) :
    (x.alone sqlError w).1 = (y.alone sqlError v).1 ∧
      I (x.alone sqlError w).2 (y.alone sqlError v).2 := by
  unfold Prog.Twin at h
  generalize x.alone sqlError w = p at h ⊢
  generalize y.alone sqlError v = q at h ⊢
  obtain ⟨_ | a, w'⟩ := p <;> obtain ⟨_ | b, v'⟩ := q
  · exact ⟨congrArg Except.error h.1, h.2⟩
  · exact h.elim
  · exact h.elim
  · exact ⟨congrArg Except.ok h.1, h.2⟩

/-! ## Listings -/

omit [DecidableEq K] in
/-- Two stores with the same rows of a clause list them in the same order, if a column tells
the rows apart. -/
theorem matching_eq {κ : Type} [LinearOrder κ] (column : R → κ) {a b : Db R} {wh : W}
    (hbefore : ∀ x y, holds wh x = true → holds wh y = true →
      (before wh x y = true ↔ column y ≤ column x))
    (hinj : ∀ x y, x ∈ matching a wh → y ∈ matching a wh → column x = column y → x = y)
    (hmem : ∀ x, x ∈ matching a wh ↔ x ∈ matching b wh) : matching a wh = matching b wh := by
  have ha := Spec.pairwise_matching column a hbefore hinj
  have hb := Spec.pairwise_matching column b hbefore fun x y hx hy =>
    hinj x y ((hmem x).2 hx) ((hmem y).2 hy)
  have hne : ∀ {x y : R}, column y < column x → x ≠ y := by
    rintro x y hlt rfl
    exact lt_irrefl _ hlt
  have hperm : (matching a wh).Perm (matching b wh) :=
    (List.perm_ext_iff_of_nodup (ha.imp hne) (hb.imp hne)).2 hmem
  exact hperm.eq_of_pairwise (fun x y _ _ hxy hyx => absurd (lt_trans hxy hyx) (lt_irrefl _)) ha hb

end ReadCommitted
