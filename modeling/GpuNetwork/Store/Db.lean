import Mathlib.Data.List.Nodup
import Mathlib.Data.List.Sort

/-!
# Keyed row stores

The bottom of a small theory of relational stores.  A store is a list of rows of
one type `R`; every row has a primary key, and no two rows share one, which the
structure `Db` carries as a field.  What a program knows about its rows — the
key, the columns an `UPDATE` rewrites, the foreign keys, the unique columns, the
`WHERE` clauses it uses — is collected in the class `Schema`.

* `Db.get` — the row under a key; everything below is stated through it.
* `Db.insert`, `Db.update`, `Db.delete` and their `get` lemmas.
* `Write`, `Write.apply`, `applyAll` — the writes a transaction has pending, and
  what a commit makes of them.
* `get_applyAll_of_not_target` — a commit only touches the rows its writes name.
-/

namespace ReadCommitted

/-- What the store has to know about the rows of a program. -/
class Schema (R : Type) (K W : outParam Type) where
  /-- The primary key of a row. -/
  key : R → K
  /-- `merge old new cur`: the columns in which `new` differs from `old`, written
  over `cur`.  This is the `UPDATE` an object mapper issues for a loaded row `old`
  whose attributes have become those of `new`. -/
  merge : R → R → R → R
  key_merge : ∀ old new cur, key (merge old new cur) = key cur
  /-- The rows a row refers to, each with the number of the foreign key. -/
  refs : R → List (Nat × K)
  /-- What deleting the referenced row does to a row: `none` deletes it too. -/
  unref : K → R → Option R
  key_unref : ∀ k r r', unref k r = some r' → key r' = key r
  /-- Two rows that a unique constraint other than the primary key keeps apart. -/
  clash : R → R → Bool
  /-- Every number of the row fits its column. -/
  fits : R → Bool
  /-- The texts of a row, in its text columns and inside its JSON. -/
  texts : R → List (List Char)
  /-- How many parameters a row takes in an `INSERT` of several rows. -/
  parameters : R → Nat
  /-- The `WHERE` clauses. -/
  holds : W → R → Bool
  /-- The `ORDER BY` that goes with a clause. -/
  before : W → R → R → Bool

open Schema

variable {R K W : Type} [Schema R K W]

/-! ## The store -/

/-- A set of rows under distinct primary keys, in insertion order. -/
structure Db (R : Type) {K W : Type} [Schema R K W] where
  rows : List R
  nodup : (rows.map (key (R := R))).Nodup

namespace Db

/-- The empty store. -/
def empty : Db R := ⟨[], List.nodup_nil⟩

variable [DecidableEq K]

/-- The row under a key. -/
def get (db : Db R) (k : K) : Option R := db.rows.find? (fun r => key r = k)

/-- Append a row, unless its key is taken. -/
def insert (db : Db R) (r : R) : Db R :=
  if h : key r ∈ db.rows.map (key (R := R)) then db
  else ⟨db.rows ++ [r], by simpa [List.nodup_append, db.nodup] using h⟩

/-- Write the columns in which `new` differs from `old` over the row with their key. -/
def update (db : Db R) (old new : R) : Db R :=
  ⟨db.rows.map (fun r => if key r = key old then merge old new r else r), by
    rw [List.map_map, show (key ∘ fun r => if key r = key old then merge old new r else r) =
      (key : R → K) from funext fun r => by
        by_cases h : key r = key old <;> simp [h, key_merge]]
    exact db.nodup⟩

/-- Remove the row under a key. -/
def delete (db : Db R) (k : K) : Db R :=
  ⟨db.rows.filter (fun r => key r ≠ k), (db.nodup.sublist (List.filter_sublist.map _))⟩

/-! ## Looking rows up -/

theorem key_of_get {db : Db R} {k : K} {r : R} (h : db.get k = some r) : key r = k := by
  simpa using List.find?_some h

theorem mem_of_get {db : Db R} {k : K} {r : R} (h : db.get k = some r) : r ∈ db.rows :=
  List.mem_of_find?_eq_some h

/-- A row of the store is the row under its own key. -/
theorem get_of_mem {db : Db R} {r : R} (h : r ∈ db.rows) : db.get (key r) = some r := by
  cases hg : db.get (key r) with
  | none =>
    rw [get, List.find?_eq_none] at hg
    exact absurd (hg r h) (by simp)
  | some r' =>
    have hk : key r' = key r := key_of_get hg
    rw [List.inj_on_of_nodup_map db.nodup (mem_of_get hg) h hk]

theorem get_eq_none_iff {db : Db R} {k : K} : db.get k = none ↔ ∀ r ∈ db.rows, key r ≠ k := by
  simp [get, List.find?_eq_none]

@[simp] theorem get_empty (k : K) : (empty : Db R).get k = none := rfl

theorem get_insert_of_some {db : Db R} {r r' : R} (h : db.get (key r) = some r') (k : K) :
    (db.insert r).get k = db.get k := by
  have hmem : key r ∈ db.rows.map (key (R := R)) :=
    List.mem_map.2 ⟨r', mem_of_get h, key_of_get h⟩
  rw [insert, dif_pos hmem]

theorem get_insert_of_none {db : Db R} {r : R} (h : db.get (key r) = none) (k : K) :
    (db.insert r).get k = if key r = k then some r else db.get k := by
  have hmem : key r ∉ db.rows.map (key (R := R)) := by
    intro hm
    obtain ⟨r', hr', hk⟩ := List.mem_map.1 hm
    exact get_eq_none_iff.1 h r' hr' hk
  rw [insert, dif_neg hmem]
  by_cases hk : key r = k
  · subst hk
    rw [get] at h ⊢
    simp [List.find?_append, h]
  · rw [if_neg hk, get, get, List.find?_append]
    simp [hk]

/-- Inserting a row leaves every row that was there as it is. -/
theorem get_insert_of_get {db : Db R} {r r' : R} {k : K} (h : db.get k = some r') :
    (db.insert r).get k = some r' := by
  cases hg : db.get (key r) with
  | some x => rw [get_insert_of_some hg, h]
  | none =>
    rw [get_insert_of_none hg, if_neg, h]
    rintro rfl
    rw [hg] at h
    exact absurd h (by simp)

/-- What is under a key after an insertion was there before, or is the new row. -/
theorem get_insert_cases {db : Db R} {r x : R} {k : K} (h : (db.insert r).get k = some x) :
    db.get k = some x ∨ (db.get k = none ∧ x = r ∧ key r = k) := by
  cases hg : db.get (key r) with
  | some y => rw [get_insert_of_some hg] at h; exact Or.inl h
  | none =>
    rw [get_insert_of_none hg] at h
    by_cases hk : key r = k
    · rw [if_pos hk, Option.some.injEq] at h
      exact Or.inr ⟨hk ▸ hg, h.symm, hk⟩
    · rw [if_neg hk] at h; exact Or.inl h

theorem get_insert_of_ne {db : Db R} {r : R} {k : K} (h : key r ≠ k) :
    (db.insert r).get k = db.get k := by
  cases hg : db.get (key r) with
  | some x => exact get_insert_of_some hg k
  | none => rw [get_insert_of_none hg, if_neg h]

theorem get_update (db : Db R) (old new : R) (k : K) :
    (db.update old new).get k =
      if k = key old then (db.get k).map (merge old new) else db.get k := by
  have hmap : ∀ l : List R,
      (l.map (fun r => if key r = key old then merge old new r else r)).find?
          (fun r => decide (key r = k)) =
        if k = key old then (l.find? (fun r => decide (key r = k))).map (merge old new)
        else l.find? (fun r => decide (key r = k)) := by
    intro l
    induction l with
    | nil => simp
    | cons a t ih =>
      rw [List.map_cons, List.find?_cons, List.find?_cons, ih]
      by_cases ha : key a = key old
      · by_cases hk : k = key old
        · subst hk; simp [ha, key_merge]
        · have hne : key a ≠ k := fun h => hk (h ▸ ha)
          simp [ha, key_merge, hk, Ne.symm hk]
      · by_cases hk : k = key old
        · subst hk; simp [ha]
        · simp [ha, hk]
  exact hmap db.rows

theorem get_update_of_ne {db : Db R} {old new : R} {k : K} (h : k ≠ key old) :
    (db.update old new).get k = db.get k := by
  rw [get_update, if_neg h]

theorem get_delete (db : Db R) (k k' : K) :
    (db.delete k).get k' = if k' = k then none else db.get k' := by
  by_cases h : k' = k
  · subst h
    rw [if_pos rfl, get_eq_none_iff]
    intro r hr
    simpa using (List.mem_filter.1 hr).2
  · rw [if_neg h, get, get, delete, List.find?_filter]
    congr 1
    funext r
    by_cases hr : key r = k' <;> simp [hr, h]

end Db

/-! ## Pending writes -/

/-- One row written by a transaction that has not committed yet. -/
inductive Write (R K : Type) where
  | insert (r : R)
  | update (old new : R)
  | delete (k : K)
  deriving DecidableEq

namespace Write

/-- The key of the row a write touches. -/
def target : Write R K → K
  | .insert r => key r
  | .update old _ => key old
  | .delete k => k

variable [DecidableEq K]

/-- Carry out a write. -/
def apply (db : Db R) : Write R K → Db R
  | .insert r => db.insert r
  | .update old new => db.update old new
  | .delete k => db.delete k

@[simp] theorem apply_insert (db : Db R) (r : R) : (insert r).apply db = db.insert r := rfl

@[simp] theorem apply_update (db : Db R) (old new : R) :
    (update old new).apply db = db.update old new := rfl

@[simp] theorem apply_delete (db : Db R) (k : K) : (delete k).apply db = db.delete k := rfl

theorem get_apply_of_ne {db : Db R} {w : Write R K} {k : K} (h : w.target ≠ k) :
    (w.apply db).get k = db.get k := by
  cases w with
  | insert r => exact Db.get_insert_of_ne h
  | update old new => exact Db.get_update_of_ne (Ne.symm h)
  | delete k' =>
    have hne : k ≠ k' := Ne.symm h
    rw [apply_delete, Db.get_delete, if_neg hne]

/-- What a write makes of the row under one key. -/
def on (k : K) : Write R K → Option R → Option R
  | .insert r, o => if key r = k then o.or (some r) else o
  | .update old new, o => if key old = k then o.map (merge old new) else o
  | .delete k', o => if k' = k then none else o

theorem get_apply (w : Write R K) (db : Db R) (k : K) : (w.apply db).get k = w.on k (db.get k) := by
  by_cases h : w.target = k
  · subst h
    cases w with
    | insert r =>
      rw [apply_insert, on, target, if_pos rfl]
      cases hg : db.get (key r) with
      | some x => rw [Db.get_insert_of_some hg, hg]; rfl
      | none => rw [Db.get_insert_of_none hg, if_pos rfl]; rfl
    | update old new => rw [apply_update, Db.get_update, on, target, if_pos rfl]
    | delete k => rw [apply_delete, Db.get_delete, on, target, if_pos rfl]
  · rw [get_apply_of_ne h]
    cases w with
    | insert r => exact (if_neg h).symm
    | update old new => exact (if_neg h).symm
    | delete k => exact (if_neg h).symm

theorem on_insert {r : R} {k : K} (h : (insert r : Write R K).target = k) (o : Option R) :
    (insert r : Write R K).on k o = o.or (some r) := if_pos h

theorem on_update {old new : R} {k : K} (h : (update old new : Write R K).target = k)
    (o : Option R) : (update old new : Write R K).on k o = o.map (merge old new) := if_pos h

theorem on_insert_of_none {r : R} {k : K} (h : key r = k) :
    (insert r : Write R K).on k none = some r := if_pos h

theorem on_update_of_some {old new cur : R} {k : K} (h : key old = k) :
    (update old new : Write R K).on k (some cur) = some (merge old new cur) := if_pos h

theorem on_of_ne {w : Write R K} {k : K} (h : w.target ≠ k) (o : Option R) : w.on k o = o := by
  cases w <;> exact if_neg h

end Write

variable [DecidableEq K]

/-- Carry out a list of writes, in order. -/
def applyAll (ws : List (Write R K)) (db : Db R) : Db R := ws.foldl (fun d w => w.apply d) db

@[simp] theorem applyAll_nil (db : Db R) : applyAll [] db = db := rfl

@[simp] theorem applyAll_cons (w : Write R K) (ws : List (Write R K)) (db : Db R) :
    applyAll (w :: ws) db = applyAll ws (w.apply db) := rfl

theorem applyAll_append (ws vs : List (Write R K)) (db : Db R) :
    applyAll (ws ++ vs) db = applyAll vs (applyAll ws db) := List.foldl_append

/-- The row under a key sees only the writes of that row. -/
theorem get_applyAll (ws : List (Write R K)) (db : Db R) (k : K) :
    (applyAll ws db).get k = ws.foldl (fun o w => w.on k o) (db.get k) := by
  induction ws generalizing db with
  | nil => rfl
  | cons w ws ih => rw [applyAll_cons, ih, Write.get_apply, List.foldl_cons]

theorem foldl_on_of_ne {ws : List (Write R K)} {k : K} (h : ∀ w ∈ ws, w.target ≠ k)
    (o : Option R) : ws.foldl (fun o w => w.on k o) o = o := by
  induction ws generalizing o with
  | nil => rfl
  | cons w ws ih =>
    rw [List.foldl_cons, Write.on_of_ne (h w (List.mem_cons_self ..))]
    exact ih (fun v hv => h v (List.mem_cons_of_mem _ hv)) o

/-- Of writes that touch each row once, the row under a key sees the one that names it. -/
theorem foldl_on_of_mem {ws : List (Write R K)} (hnd : (ws.map Write.target).Nodup)
    {w : Write R K} (hw : w ∈ ws) (o : Option R) :
    ws.foldl (fun o v => v.on w.target o) o = w.on w.target o := by
  induction ws generalizing o with
  | nil => simp at hw
  | cons v ws ih =>
    rw [List.map_cons, List.nodup_cons] at hnd
    rw [List.foldl_cons]
    rcases List.mem_cons.1 hw with rfl | hw
    · exact foldl_on_of_ne (fun v hv he => hnd.1 (List.mem_map.2 ⟨v, hv, he⟩)) _
    · have hne : v.target ≠ w.target := fun he => hnd.1 (List.mem_map.2 ⟨w, hw, he.symm⟩)
      rw [Write.on_of_ne hne]
      exact ih hnd.2 hw o

/-- What each write does to the row under a key, all of them do. -/
theorem foldl_on_rel {Rel : Option R → Option R → Prop} (hrefl : ∀ o, Rel o o)
    (htrans : ∀ a b c, Rel a b → Rel b c → Rel a c) {ws : List (Write R K)} {k : K}
    (h : ∀ w ∈ ws, ∀ o, Rel o (w.on k o)) (o : Option R) :
    Rel o (ws.foldl (fun o w => w.on k o) o) := by
  induction ws generalizing o with
  | nil => exact hrefl o
  | cons w ws ih =>
    have hw := h w (List.mem_cons_self ..) o
    exact htrans _ _ _ hw (ih (fun v hv => h v (List.mem_cons_of_mem _ hv)) _)

/-- **A commit touches only the rows its writes name.** -/
theorem get_applyAll_of_not_target {ws : List (Write R K)} {k : K}
    (h : ∀ w ∈ ws, w.target ≠ k) (db : Db R) : (applyAll ws db).get k = db.get k := by
  rw [get_applyAll, foldl_on_of_ne h]

/-- A commit that deletes nothing under a key leaves a row there. -/
theorem isSome_get_applyAll {ws : List (Write R K)} {k : K} (h : Write.delete k ∉ ws)
    {db : Db R} (hk : (db.get k).isSome) : ((applyAll ws db).get k).isSome := by
  induction ws generalizing db with
  | nil => exact hk
  | cons w ws ih =>
    rw [List.mem_cons, not_or] at h
    obtain ⟨r, hr⟩ := Option.isSome_iff_exists.1 hk
    have hw : ((w.apply db).get k).isSome := by
      cases w with
      | insert x => rw [Write.apply_insert, Db.get_insert_of_get hr]; rfl
      | update old new =>
        rw [Write.apply_update, Db.get_update, hr]
        by_cases hk' : k = key old <;> simp [hk']
      | delete k' =>
        have hne : k ≠ k' := fun e => h.1 (by rw [e])
        rw [Write.apply_delete, Db.get_delete, if_neg hne, hr]
        rfl
    exact ih h.2 hw

/-! ## Tables that only grow -/

section

variable {A : Type} (f : R → Option A)

/-- A new row comes last in its table. -/
theorem filterMap_insert {db : Db R} {r : R} (h : db.get (key r) = none) :
    (db.insert r).rows.filterMap f = db.rows.filterMap f ++ (f r).toList := by
  have hmem : key r ∉ db.rows.map (key (R := R)) := by
    intro hm
    obtain ⟨r', hr', hk⟩ := List.mem_map.1 hm
    exact Db.get_eq_none_iff.1 h r' hr' hk
  rw [Db.insert, dif_neg hmem, List.filterMap_append]
  cases hf : f r <;> simp [hf]

/-- A write of a row outside a table leaves the table alone. -/
theorem filterMap_apply {w : Write R K} (h : ∀ r : R, key r = w.target → f r = none)
    (db : Db R) : (w.apply db).rows.filterMap f = db.rows.filterMap f := by
  cases w with
  | insert r =>
    cases hg : db.get (key r) with
    | some x =>
      have hmem : key r ∈ db.rows.map (key (R := R)) :=
        List.mem_map.2 ⟨x, Db.mem_of_get hg, Db.key_of_get hg⟩
      rw [Write.apply_insert, Db.insert, dif_pos hmem]
    | none =>
      rw [Write.apply_insert, filterMap_insert f hg, h r rfl]
      simp
  | update old new =>
    rw [Write.apply_update, Db.update, List.filterMap_map]
    refine List.filterMap_congr fun r _ => ?_
    show f (if key r = key old then merge old new r else r) = f r
    by_cases hk : key r = key old
    · rw [if_pos hk, h r hk]
      exact h _ ((key_merge old new r).trans hk)
    · rw [if_neg hk]
  | delete k =>
    rw [Write.apply_delete, Db.delete, List.filterMap_filter]
    refine List.filterMap_congr fun r _ => ?_
    by_cases hk : key r = k
    · simp [hk, h r hk]
    · simp [hk]

theorem filterMap_applyAll {ws : List (Write R K)}
    (h : ∀ w ∈ ws, ∀ r : R, key r = w.target → f r = none) (db : Db R) :
    (applyAll ws db).rows.filterMap f = db.rows.filterMap f := by
  induction ws generalizing db with
  | nil => rfl
  | cons w ws ih =>
    rw [applyAll_cons, ih (fun v hv => h v (List.mem_cons_of_mem _ hv)),
      filterMap_apply f (h w (List.mem_cons_self ..))]

end

end ReadCommitted
