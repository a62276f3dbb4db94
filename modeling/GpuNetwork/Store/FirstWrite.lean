import Mathlib.Data.Finset.Card
import Mathlib.Data.Finset.Dedup
import Mathlib.Data.Finset.Filter

/-!
# Maps that keep the first value

A map takes entries one after the other; an entry whose key is there already changes
nothing.

* `absorb` — the map after a list of entries; `absorb_apply` — its values.
* `entering`, `fresh` — the entries that go in, and their keys.
* `absorb_of_known`, `absorb_comm` — entries that come again, or in another order.
-/

namespace FirstWrite

variable {κ ν : Type} [DecidableEq κ]

/-- A map. -/
abbrev Table (κ ν : Type) := κ → Option ν

/-- The map with an entry, unless its key is there. -/
def put (m : Table κ ν) (k : κ) (v : ν) : Table κ ν :=
  fun k' => if k' = k then (m k).or (some v) else m k'

/-- The map after a list of entries. -/
def absorb (m : Table κ ν) (es : List (κ × ν)) : Table κ ν :=
  es.foldl (fun m e => put m e.1 e.2) m

/-- The first value that comes with the key. -/
def first (es : List (κ × ν)) (k : κ) : Option ν :=
  (es.find? fun e => decide (e.1 = k)).map Prod.snd

/-- The entries that go in. -/
def entering (m : Table κ ν) : List (κ × ν) → List (κ × ν)
  | [] => []
  | e :: es =>
    if (m e.1).isSome then entering m es else e :: entering (put m e.1 e.2) es

/-- The keys of the entries that are not there yet. -/
def fresh (m : Table κ ν) (es : List (κ × ν)) : Finset κ :=
  (es.map Prod.fst).toFinset.filter fun k => (m k).isNone = true

variable {m : Table κ ν} {es es' : List (κ × ν)} {k : κ} {v : ν}

/-! ## Values -/

theorem put_self (m : Table κ ν) (k : κ) (v : ν) : put m k v k = (m k).or (some v) := if_pos rfl

theorem put_of_ne {k' : κ} (h : k' ≠ k) : put m k v k' = m k' := if_neg h

/-- An entry whose key is there changes nothing. -/
theorem put_of_isSome (h : (m k).isSome = true) : put m k v = m := by
  funext k'
  by_cases hk : k' = k
  · subst hk
    rw [put_self, Option.or_of_isSome h]
  · exact put_of_ne hk

@[simp] theorem absorb_nil (m : Table κ ν) : absorb m [] = m := rfl

@[simp] theorem absorb_cons (m : Table κ ν) (e : κ × ν) (es : List (κ × ν)) :
    absorb m (e :: es) = absorb (put m e.1 e.2) es := rfl

theorem absorb_append (m : Table κ ν) (es es' : List (κ × ν)) :
    absorb m (es ++ es') = absorb (absorb m es) es' := List.foldl_append

@[simp] theorem first_nil (k : κ) : first ([] : List (κ × ν)) k = none := rfl

theorem first_cons (e : κ × ν) (es : List (κ × ν)) (k : κ) :
    first (e :: es) k = if e.1 = k then some e.2 else first es k := by
  unfold first
  rw [List.find?_cons]
  by_cases hk : e.1 = k <;> simp [hk]

theorem first_append (es es' : List (κ × ν)) (k : κ) :
    first (es ++ es') k = (first es k).or (first es' k) := by
  unfold first
  rw [List.find?_append]
  cases es.find? fun e => decide (e.1 = k) <;> rfl

theorem first_eq_none_iff : first es k = none ↔ ∀ e ∈ es, e.1 ≠ k := by
  rw [first, Option.map_eq_none_iff, List.find?_eq_none]
  simp

theorem mem_of_first (h : first es k = some v) : (k, v) ∈ es := by
  obtain ⟨e, he, rfl⟩ := Option.map_eq_some_iff.1 h
  have hk : e.1 = k := by simpa using List.find?_some he
  rw [← hk]
  exact List.mem_of_find?_eq_some he

/-- **The first value wins**: that of the map, else the first that came. -/
theorem absorb_apply (m : Table κ ν) (es : List (κ × ν)) (k : κ) :
    absorb m es k = (m k).or (first es k) := by
  induction es generalizing m with
  | nil => simp
  | cons e es ih =>
    rw [absorb_cons, ih, first_cons]
    by_cases hk : e.1 = k
    · subst hk
      rw [put_self, if_pos rfl]
      cases m e.1 <;> rfl
    · rw [put_of_ne (Ne.symm hk), if_neg hk]

theorem absorb_of_not_mem (h : ∀ e ∈ es, e.1 ≠ k) : absorb m es k = m k := by
  rw [absorb_apply, first_eq_none_iff.2 h, Option.or_none]

theorem isSome_absorb (h : (m k).isSome = true) : absorb m es k = m k := by
  rw [absorb_apply, Option.or_of_isSome h]

theorem isSome_absorb_of_mem {e : κ × ν} (he : e ∈ es) : (absorb m es e.1).isSome = true := by
  have hfirst : first es e.1 ≠ none := fun hnone => first_eq_none_iff.1 hnone e he rfl
  rw [absorb_apply]
  cases m e.1 with
  | some x => rfl
  | none => exact Option.isSome_iff_ne_none.2 hfirst

/-! ## What goes in -/

/-- **As many entries go in as keys are new.** -/
theorem length_entering (m : Table κ ν) (es : List (κ × ν)) :
    (entering m es).length = (fresh m es).card := by
  induction es generalizing m with
  | nil => rfl
  | cons e es ih =>
    rw [entering]
    have hcons : fresh m (e :: es) = if (m e.1).isNone = true then insert e.1 (fresh m es)
        else fresh m es := by
      rw [fresh, List.map_cons, List.toFinset_cons, Finset.filter_insert]
      rfl
    by_cases hm : (m e.1).isSome = true
    · have hnone : ¬ (m e.1).isNone = true := by simpa [Option.isSome_iff_ne_none] using hm
      rw [if_pos hm, ih, hcons, if_neg hnone]
    · have hnone : (m e.1).isNone = true := by simpa using hm
      -- the key itself does not count again
      have herase : fresh (put m e.1 e.2) es = (fresh m es).erase e.1 := by
        ext k
        simp only [fresh, Finset.mem_filter, Finset.mem_erase]
        by_cases hk : k = e.1
        · subst hk
          simp [put_self, Option.isNone_iff_eq_none.1 hnone]
        · simp [put_of_ne hk, hk]
      rw [if_neg hm, List.length_cons, ih, herase, hcons, if_pos hnone]
      by_cases hmem : e.1 ∈ fresh m es
      · rw [Finset.insert_eq_of_mem hmem, Finset.card_erase_add_one hmem]
      · rw [Finset.erase_eq_of_notMem hmem, Finset.card_insert_of_notMem hmem]

/-- Entries with new keys, no two the same, all go in. -/
theorem entering_eq_self (hnew : ∀ e ∈ es, (m e.1).isNone = true)
    (hnd : (es.map Prod.fst).Nodup) : entering m es = es := by
  induction es generalizing m with
  | nil => rfl
  | cons e es ih =>
    obtain ⟨hne, hnd⟩ := List.nodup_cons.1 hnd
    have hm : ¬ (m e.1).isSome = true := by
      have := hnew e (List.mem_cons_self ..)
      simpa using this
    rw [entering, if_neg hm, ih (fun x hx => ?_) hnd]
    have hk : x.1 ≠ e.1 := fun he => hne (he ▸ List.mem_map_of_mem hx)
    rw [put_of_ne hk]
    exact hnew x (List.mem_cons_of_mem _ hx)

/-! ## Again, and in another order -/

/-- Entries whose keys are there change nothing, and none goes in. -/
theorem absorb_of_known (h : ∀ e ∈ es, (m e.1).isSome = true) :
    absorb m es = m ∧ fresh m es = ∅ := by
  constructor
  · funext k
    by_cases hk : ∃ e ∈ es, e.1 = k
    · obtain ⟨e, he, rfl⟩ := hk
      exact isSome_absorb (h e he)
    · exact absorb_of_not_mem fun e he hek => hk ⟨e, he, hek⟩
  · refine Finset.filter_eq_empty_iff.2 fun k hk hnone => ?_
    obtain ⟨e, he, rfl⟩ := List.mem_map.1 (List.mem_toFinset.1 hk)
    have := h e he
    rw [Option.isNone_iff_eq_none.1 hnone] at this
    cases this

/-- **Entries with different keys commute.** -/
theorem absorb_comm (hdisj : ∀ e ∈ es, ∀ e' ∈ es', e.1 ≠ e'.1) (m : Table κ ν) :
    absorb (absorb m es) es' = absorb (absorb m es') es := by
  funext k
  by_cases hk : ∃ e ∈ es, e.1 = k
  · obtain ⟨e, he, rfl⟩ := hk
    have hnot : ∀ e' ∈ es', e'.1 ≠ e.1 := fun e' he' h => hdisj e he e' he' h.symm
    rw [absorb_of_not_mem hnot, absorb_apply, absorb_apply, absorb_of_not_mem hnot]
  · have hnot : ∀ e ∈ es, e.1 ≠ k := fun e he hek => hk ⟨e, he, hek⟩
    rw [absorb_apply, absorb_of_not_mem hnot, absorb_of_not_mem hnot, absorb_apply]

end FirstWrite
