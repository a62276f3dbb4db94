import Mathlib.Data.Finset.Card
import Mathlib.Data.List.Sort

/-!
# Keyset pagination

A listing is read page by page.  A page has the entries with the greatest keys below a
bound, from the greatest down, and names the last of them as the bound of the next page
when it is full.  The table may change between two pages.

* `IsPage` — a page of a listing; `isPage_take`.
* `follow` — the pages a reader gets who follows the cursors.
* `Serves`, `exists_follow` — **no entry is lost or repeated.**
-/

namespace Keyset

variable {α κ σ : Type} [LinearOrder κ]

/-- The key lies below the bound, if there is one. -/
def Below (bound : Option κ) (x : κ) : Prop := ∀ b ∈ bound, x < b

/-- The entries of a listing with the greatest keys below a bound. -/
structure IsPage (key : α → κ) (limit : Nat) (Listed : α → Prop) (bound : Option κ)
    (page : List α) : Prop where
  sorted : page.Pairwise fun a b => key b < key a
  length_le : page.length ≤ limit
  listed : ∀ a ∈ page, Listed a
  below : ∀ a ∈ page, Below bound (key a)
  complete : ∀ a, Listed a → Below bound (key a) →
    a ∈ page ∨ (page.length = limit ∧ ∀ c ∈ page, key a < key c)

/-- The first entries of those below the bound make a page. -/
theorem isPage_take {key : α → κ} {Listed : α → Prop} {bound : Option κ} {rows : List α}
    (limit : Nat) (hsorted : rows.Pairwise fun a b => key b < key a)
    (hmem : ∀ a, a ∈ rows ↔ Listed a ∧ Below bound (key a)) :
    IsPage key limit Listed bound (rows.take limit) := by
  refine ⟨hsorted.sublist (List.take_sublist _ _), List.length_take_le _ _,
    fun a ha => ((hmem a).1 (List.mem_of_mem_take ha)).1,
    fun a ha => ((hmem a).1 (List.mem_of_mem_take ha)).2, fun a hl hb => ?_⟩
  have ha := (hmem a).2 ⟨hl, hb⟩
  rw [← List.take_append_drop limit rows, List.mem_append] at ha
  rcases ha with ha | ha
  · exact Or.inl ha
  · right
    constructor
    · -- something is left behind the page, so it is full
      have hlt : 0 < (rows.drop limit).length := List.length_pos_of_mem ha
      rw [List.length_drop] at hlt
      rw [List.length_take]
      omega
    · intro c hc
      rw [← List.take_append_drop limit rows, List.pairwise_append] at hsorted
      exact hsorted.2.2 c hc a ha

/-- The pages from the `k`-th fetch on, the first of them behind a cursor: `none` where a
fetch fails, or after more fetches than the fuel. -/
def follow (fetch : Nat → Option σ → Option (List α × Option σ)) :
    Nat → Nat → Option σ → Option (List (List α))
  | 0, _, _ => none
  | fuel + 1, k, cursor =>
    match fetch k cursor with
    | none => none
    | some (page, none) => some [page]
    | some (page, some next) => (follow fetch fuel (k + 1) (some next)).map (page :: ·)

/-- Every fetch answers with a page of its listing, and with a cursor for the last entry
exactly when the page is full. -/
structure Serves (key : α → κ) (limit : Nat) (Listed : Nat → α → Prop)
    (Means : Option σ → Option κ → Prop)
    (fetch : Nat → Option σ → Option (List α × Option σ)) : Prop where
  start : Means none none
  fetch : ∀ k cursor bound, Means cursor bound → ∃ page next, fetch k cursor = some (page, next) ∧
    IsPage key limit (Listed k) bound page ∧ (page.length ≠ limit → next = none) ∧
    (page.length = limit → ∀ a, page.getLast? = some a →
      ∃ c, next = some c ∧ Means next (some (key a)))

variable {key : α → κ} {limit : Nat} {Listed : Nat → α → Prop}
  {Means : Option σ → Option κ → Prop}
  {fetch : Nat → Option σ → Option (List α × Option σ)}

/-- More fetches than are needed make no difference. -/
theorem follow_succ {n k : Nat} {cursor : Option σ} {pages : List (List α)}
    (h : follow fetch n k cursor = some pages) : follow fetch (n + 1) k cursor = some pages := by
  induction n generalizing k cursor pages with
  | zero => cases h
  | succ n ih =>
    rw [follow] at h ⊢
    split at h
    · cases h
    · rename_i hfetch
      simpa only [hfetch] using h
    · obtain ⟨rest, hrest, rfl⟩ := Option.map_eq_some_iff.1 h
      simp only [ih hrest, Option.map_some]

theorem follow_of_le {n m k : Nat} {cursor : Option σ} {pages : List (List α)}
    (h : follow fetch n k cursor = some pages) (hle : n ≤ m) :
    follow fetch m k cursor = some pages := by
  induction hle with
  | refl => exact h
  | step _ ih => exact follow_succ ih

/-- A reader gets the same pages with any fuel that is enough. -/
theorem follow_unique {n m k : Nat} {cursor : Option σ} {pages pages' : List (List α)}
    (h : follow fetch n k cursor = some pages) (h' : follow fetch m k cursor = some pages') :
    pages = pages' := by
  have hmax := follow_of_le h (Nat.le_max_left n m)
  rw [follow_of_le h' (Nat.le_max_right n m)] at hmax
  exact (Option.some.inj hmax).symm

/-- A reader has the entries below a bound: in order, each listed, and all that stay. -/
structure Covers (key : α → κ) (Listed : Nat → α → Prop) (bound : Option κ)
    (entries : List α) : Prop where
  sorted : entries.Pairwise fun a b => key b < key a
  below : ∀ a ∈ entries, Below bound (key a)
  listed : ∀ a ∈ entries, ∃ k, Listed k a
  complete : ∀ x, Below bound x → (∀ k, ∃ a, Listed k a ∧ key a = x) → ∃ a ∈ entries, key a = x

/-- A page that is not full is the last one. -/
theorem IsPage.covers_last {k : Nat} {bound : Option κ} {page : List α}
    (h : IsPage key limit (Listed k) bound page) (hlen : page.length ≠ limit) :
    Covers key Listed bound page := by
  refine ⟨h.sorted, h.below, fun a ha => ⟨k, h.listed a ha⟩, fun x hx hstays => ?_⟩
  obtain ⟨a, hl, rfl⟩ := hstays k
  rcases h.complete a hl hx with ha | ⟨hfull, -⟩
  · exact ⟨a, ha, rfl⟩
  · exact absurd hfull hlen

/-- The entries behind a full page are those below its last key. -/
theorem IsPage.covers_append {k : Nat} {bound : Option κ} {page rest : List α} {a : α}
    (h : IsPage key limit (Listed k) bound page) (hlast : page.getLast? = some a)
    (hrest : Covers key Listed (some (key a)) rest) :
    Covers key Listed bound (page ++ rest) := by
  obtain ⟨init, rfl⟩ := List.getLast?_eq_some_iff.1 hlast
  have ha : a ∈ init ++ [a] := List.mem_append_right _ (List.mem_singleton_self a)
  -- the last entry of the page has its least key
  have hleast : ∀ c ∈ init ++ [a], key a ≤ key c := by
    intro c hc
    rcases List.mem_append.1 hc with hc | hc
    · exact ((List.pairwise_append.1 h.sorted).2.2 c hc a (List.mem_singleton_self a)).le
    · rw [List.mem_singleton.1 hc]
  have hbehind : ∀ r ∈ rest, key r < key a := fun r hr => hrest.below r hr _ rfl
  refine ⟨List.pairwise_append.2 ⟨h.sorted, hrest.sorted, fun c hc r hr =>
    (hbehind r hr).trans_le (hleast c hc)⟩, fun c hc => ?_, fun c hc => ?_, fun x hx hstays => ?_⟩
  · rcases List.mem_append.1 hc with hc | hc
    · exact h.below c hc
    · exact fun b hb => (hbehind c hc).trans (h.below a ha b hb)
  · rcases List.mem_append.1 hc with hc | hc
    · exact ⟨k, h.listed c hc⟩
    · exact hrest.listed c hc
  · obtain ⟨e, hl, rfl⟩ := hstays k
    rcases h.complete e hl hx with he | ⟨-, hlow⟩
    · exact ⟨e, List.mem_append_left _ he, rfl⟩
    · have hlt : Below (some (key a)) (key e) := by
        intro b hb
        rw [← Option.some.inj hb]
        exact hlow a ha
      obtain ⟨r, hr, hkey⟩ := hrest.complete (key e) hlt hstays
      exact ⟨r, List.mem_append_right _ hr, hkey⟩

/-- From any cursor on, the pages come to an end and have what lies below its bound. -/
theorem Serves.exists_follow_from (h : Serves key limit Listed Means fetch) (hlimit : 0 < limit)
    {keys : Finset κ} (hkeys : ∀ k a, Listed k a → key a ∈ keys) (k : Nat) (cursor : Option σ)
    (bound : Option κ) (hmeans : Means cursor bound) :
    ∃ n pages, follow fetch n k cursor = some pages ∧ Covers key Listed bound pages.flatten := by
  classical
  -- by induction on the number of keys below the bound
  induction hcard : (keys.filter (Below bound)).card using Nat.strong_induction_on
    generalizing k cursor bound with
  | _ m ih =>
    obtain ⟨page, next, hfetch, hpage, hpart, hfull⟩ := h.fetch k cursor bound hmeans
    by_cases hlen : page.length = limit
    · have hne : page ≠ [] := by
        rintro rfl
        rw [List.length_nil] at hlen
        omega
      have hlast := List.getLast?_eq_some_getLast hne
      obtain ⟨c, rfl, hmeans'⟩ := hfull hlen _ hlast
      have ha := List.getLast_mem hne
      have hfewer : (keys.filter (Below (some (key (page.getLast hne))))).card < m := by
        rw [← hcard]
        refine Finset.card_lt_card (Finset.ssubset_iff_of_subset (fun x hx => ?_) |>.2
          ⟨key (page.getLast hne), ?_, ?_⟩)
        · rw [Finset.mem_filter] at hx ⊢
          exact ⟨hx.1, fun b hb => (hx.2 _ rfl).trans (hpage.below _ ha b hb)⟩
        · exact Finset.mem_filter.2 ⟨hkeys k _ (hpage.listed _ ha), hpage.below _ ha⟩
        · intro hx
          exact lt_irrefl _ ((Finset.mem_filter.1 hx).2 _ rfl)
      obtain ⟨n, pages, hrun, hcovers⟩ := ih _ hfewer (k + 1) (some c) _ hmeans' rfl
      refine ⟨n + 1, page :: pages, ?_, ?_⟩
      · simp only [follow, hfetch, hrun, Option.map_some]
      · rw [List.flatten_cons]
        exact hpage.covers_append hlast hcovers
    · have hnone := hpart hlen
      subst hnone
      refine ⟨1, [page], ?_, ?_⟩
      · simp only [follow, hfetch]
      · rw [List.flatten_cons, List.flatten_nil, List.append_nil]
        exact hpage.covers_last hlen

/-- **Following the cursors comes to an end, and loses and repeats nothing.** -/
theorem Serves.exists_follow (h : Serves key limit Listed Means fetch) (hlimit : 0 < limit)
    {keys : Finset κ} (hkeys : ∀ k a, Listed k a → key a ∈ keys) :
    ∃ n pages, follow fetch n 0 none = some pages ∧ Covers key Listed none pages.flatten :=
  h.exists_follow_from hlimit hkeys 0 none none h.start

end Keyset
