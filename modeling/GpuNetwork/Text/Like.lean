import Mathlib.Data.List.Forall2
import Mathlib.Data.List.Infix

/-!
# Patterns of SQL

`LIKE` with any notion of when two characters are the same: `%` stands for any string, `_` for
any character, and a backslash makes the next character stand for itself.

* `like` — the matcher.
* `Within` — a text is part of another one, up to sameness.
* `like_iff_within` — for which texts a pattern between two `%` asks just that.
* `like_map` — to match after a change of characters is to match up to that change.
-/

namespace Text.Like

variable {same : Char → Char → Bool}

/-- The text matches the pattern. -/
def like (same : Char → Char → Bool) : List Char → List Char → Bool
  | [], s => s.isEmpty
  | '%' :: p, s => s.tails.any (like same p)
  | '_' :: p, s =>
    match s with
    | [] => false
    | _ :: t => like same p t
  | '\\' :: c :: p, s =>
    match s with
    | [] => false
    | d :: t => same c d && like same p t
  | c :: p, s =>
    match s with
    | [] => false
    | d :: t => same c d && like same p t

/-- The first text is part of the second one, up to sameness. -/
def Within (same : Char → Char → Bool) (q s : List Char) : Prop :=
  ∃ a m b, s = a ++ m ++ b ∧ List.Forall₂ (fun c d => same c d = true) q m

/-- The characters with a meaning in a pattern. -/
def isMeta (c : Char) : Bool := c = '%' || c = '_' || c = '\\'

/-- Each of its characters stands for itself. -/
def Literal (q : List Char) : Prop := ∀ c ∈ q, isMeta c = false

instance (q : List Char) : Decidable (Literal q) := inferInstanceAs (Decidable (∀ c ∈ q, _))

theorem like_percent (p s : List Char) :
    like same ('%' :: p) s = true ↔ ∃ a b, s = a ++ b ∧ like same p b = true := by
  rw [like, List.any_eq_true]
  constructor
  · rintro ⟨b, hb, hlike⟩
    obtain ⟨a, rfl⟩ := (List.mem_tails _ _).1 hb
    exact ⟨a, b, rfl, hlike⟩
  · rintro ⟨a, b, rfl, hlike⟩
    exact ⟨b, (List.mem_tails _ _).2 ⟨a, rfl⟩, hlike⟩

theorem like_last (s : List Char) : like same ['%'] s = true := by
  rw [like_percent]
  exact ⟨s, [], by simp, rfl⟩

theorem like_char {c : Char} {p : List Char} (hpercent : c ≠ '%') (hunderscore : c ≠ '_')
    (hslash : c = '\\' → p = []) (s : List Char) :
    like same (c :: p) s = true ↔ ∃ d t, s = d :: t ∧ same c d = true ∧ like same p t = true := by
  have hback : ∀ d q, c = '\\' → p = d :: q → False := by
    rintro d q hc rfl
    cases hslash hc
  cases s with
  | nil => simp [like]
  | cons d t => simp [like]

theorem isMeta_eq_false_iff {c : Char} : isMeta c = false ↔ c ≠ '%' ∧ c ≠ '_' ∧ c ≠ '\\' := by
  simp [isMeta, and_assoc]

theorem like_of_literal {c : Char} (h : isMeta c = false) (p s : List Char) :
    like same (c :: p) s = true ↔ ∃ d t, s = d :: t ∧ same c d = true ∧ like same p t = true := by
  obtain ⟨hpercent, hunderscore, hslash⟩ := isMeta_eq_false_iff.1 h
  exact like_char hpercent hunderscore (fun hc => absurd hc hslash) s

/-- Before the last `%`, a text of which each character stands for itself asks for a
beginning. -/
theorem like_literal_last {q : List Char} (h : Literal q) (s : List Char) :
    like same (q ++ ['%']) s = true ↔
      ∃ m b, s = m ++ b ∧ List.Forall₂ (fun c d => same c d = true) q m := by
  induction q generalizing s with
  | nil =>
    refine iff_of_true (like_last s) ?_
    exact ⟨[], s, rfl, List.Forall₂.nil⟩
  | cons c q ih =>
    obtain ⟨hc, hq⟩ := List.forall_mem_cons.1 h
    rw [List.cons_append, like_of_literal hc]
    constructor
    · rintro ⟨d, t, rfl, hsame, hlike⟩
      obtain ⟨m, b, rfl, hm⟩ := (ih hq t).1 hlike
      exact ⟨d :: m, b, rfl, List.Forall₂.cons hsame hm⟩
    · rintro ⟨m, b, rfl, hm⟩
      cases hm with
      | cons hsame hm => exact ⟨_, _, rfl, hsame, (ih hq _).2 ⟨_, _, rfl, hm⟩⟩

/-- **A text of which each character stands for itself is searched for as a part.** -/
theorem like_of_literal_within {q : List Char} (h : Literal q) (s : List Char) :
    like same ('%' :: q ++ ['%']) s = true ↔ Within same q s := by
  rw [List.cons_append, like_percent, Within]
  constructor
  · rintro ⟨a, b, rfl, hlike⟩
    obtain ⟨m, b, rfl, hm⟩ := (like_literal_last h _).1 hlike
    exact ⟨a, m, b, by simp, hm⟩
  · rintro ⟨a, m, b, rfl, hm⟩
    exact ⟨a, m ++ b, by simp, (like_literal_last h _).2 ⟨m, b, rfl, hm⟩⟩

/-! ## The other patterns -/

/-- The shortest text that matches; `x` is put for `_`. -/
def expand (x : Char) : List Char → List Char
  | [] => []
  | '%' :: p => expand x p
  | '_' :: p => x :: expand x p
  | '\\' :: c :: p => c :: expand x p
  | c :: p => c :: expand x p

theorem like_expand (hself : ∀ c, same c c = true) (x : Char) (p : List Char) :
    like same p (expand x p) = true := by
  fun_induction expand x p with
  | case1 => rfl
  | case2 p ih => exact (like_percent _ _).2 ⟨[], _, rfl, ih⟩
  | case3 p ih => rwa [like]
  | case4 c p ih =>
    rw [like, hself c, ih]
    rfl
  | case5 c p hpercent hunderscore hslash ih =>
    refine (like_char hpercent hunderscore (fun hc => ?_) _).2 ⟨c, _, rfl, hself c, ih⟩
    cases p with
    | nil => rfl
    | cons d p => exact (hslash d p hc rfl).elim

theorem expand_char (x : Char) {c : Char} (h : isMeta c = false) (p : List Char) :
    expand x (c :: p) = c :: expand x p := by
  obtain ⟨hpercent, hunderscore, hslash⟩ := isMeta_eq_false_iff.1 h
  rw [expand]
  · exact hpercent
  · exact hunderscore
  · exact fun d q hc => absurd hc hslash

/-- A character at the end of the query either stands for itself or is the backslash in front
of the last `%`. -/
theorem literal_or_slash {c : Char} {p : List Char} (hpercent : c ≠ '%') (hunderscore : c ≠ '_')
    (hslash : ∀ d q, c = '\\' → p = d :: q → False) :
    isMeta c = false ∨ (c = '\\' ∧ p = []) := by
  by_cases hc : c = '\\'
  · refine Or.inr ⟨hc, ?_⟩
    cases p with
    | nil => rfl
    | cons d q => exact (hslash d q hc rfl).elim
  · exact Or.inl (isMeta_eq_false_iff.2 ⟨hpercent, hunderscore, hc⟩)

theorem length_expand_le (x : Char) (q : List Char) :
    (expand x (q ++ ['%'])).length ≤ q.length := by
  induction q using expand.induct with
  | case1 => exact le_rfl
  | case2 p ih => exact Nat.le_succ_of_le ih
  | case3 p ih => exact Nat.succ_le_succ ih
  | case4 c p ih => exact Nat.le_succ_of_le (Nat.succ_le_succ ih)
  | case5 c p hpercent hunderscore hslash ih =>
    rcases literal_or_slash hpercent hunderscore hslash with hc | ⟨rfl, rfl⟩
    · rw [List.cons_append, expand_char x hc]
      exact Nat.succ_le_succ ih
    · exact le_rfl

/-- The shortest text that matches is the query itself only where each of its characters stands
for itself. -/
theorem literal_of_expand {x : Char} (hx : same '_' x = false) (hslash : same '\\' '%' = false)
    {q : List Char} (h : List.Forall₂ (fun c d => same c d = true) q (expand x (q ++ ['%']))) :
    Literal q := by
  induction q using expand.induct with
  | case1 => simp [Literal]
  | case2 p ih =>
    -- the text is too short
    have hlen := h.length_eq
    have hle := length_expand_le x p
    rw [List.cons_append, expand, List.length_cons] at hlen
    omega
  | case3 p ih =>
    rw [List.cons_append, expand, List.forall₂_cons, hx] at h
    exact absurd h.1 (by simp)
  | case4 c p ih =>
    have hlen := h.length_eq
    have hle := length_expand_le x p
    rw [List.cons_append, List.cons_append, expand, List.length_cons, List.length_cons,
      List.length_cons] at hlen
    omega
  | case5 c p hpercent hunderscore hback ih =>
    rcases literal_or_slash hpercent hunderscore hback with hc | ⟨rfl, rfl⟩
    · rw [List.cons_append, expand_char x hc, List.forall₂_cons] at h
      exact List.forall_mem_cons.2 ⟨hc, ih h.2⟩
    · have hend : expand x (['\\'] ++ ['%']) = ['%'] := rfl
      rw [hend, List.forall₂_cons, hslash] at h
      exact absurd h.1 (by simp)

/-- **A pattern between two `%` asks for a part exactly when it has no character with a
meaning.** -/
theorem like_iff_within (x : Char) (hself : ∀ c, same c c = true) (hx : same '_' x = false)
    (hslash : same '\\' '%' = false) (q : List Char) :
    (∀ s, like same ('%' :: q ++ ['%']) s = true ↔ Within same q s) ↔ Literal q := by
  constructor
  · intro h
    have hlike : like same ('%' :: q ++ ['%']) (expand x (q ++ ['%'])) = true :=
      (like_percent _ _).2 ⟨[], _, rfl, like_expand hself x _⟩
    obtain ⟨a, m, b, hsplit, hm⟩ := (h _).1 hlike
    -- nothing is left around the part
    have hle := length_expand_le x q
    have hlen := hm.length_eq
    rw [hsplit, List.length_append, List.length_append] at hle
    have ha : a = [] := List.eq_nil_of_length_eq_zero (by omega)
    have hb : b = [] := List.eq_nil_of_length_eq_zero (by omega)
    rw [ha, hb, List.nil_append, List.append_nil] at hsplit
    exact literal_of_expand hx hslash (hsplit ▸ hm)
  · intro h s
    exact like_of_literal_within h s

/-! ## A change of characters -/

/-- The characters with a meaning stay as they are, and no other becomes one of them. -/
def SparesMeta (f : Char → Char) : Prop := ∀ c, isMeta c = true ∨ isMeta (f c) = true → f c = c

theorem SparesMeta.eq_iff {f : Char → Char} (hf : SparesMeta f) {c d : Char}
    (hd : isMeta d = true) : f c = d ↔ c = d := by
  constructor
  · intro h
    rw [← h]
    exact (hf c (Or.inr (h ▸ hd))).symm
  · rintro rfl
    exact hf c (Or.inl hd)

/-- **Matching after a change of characters is matching up to that change**, if it leaves the
characters with a meaning alone. -/
theorem like_map {f : Char → Char} (hf : SparesMeta f) (p s : List Char) :
    like same (p.map f) (s.map f) = like (fun a b => same (f a) (f b)) p s := by
  have hself : ∀ {c}, isMeta c = true → f c = c := fun hc => hf _ (Or.inl hc)
  induction p using expand.induct generalizing s with
  | case1 => cases s <;> rfl
  | case2 p ih =>
    rw [List.map_cons, hself rfl, like, like, List.map_tails, List.any_map]
    exact congrArg s.tails.any (funext ih)
  | case3 p ih =>
    rw [List.map_cons, hself rfl]
    cases s with
    | nil => rfl
    | cons d t => exact ih t
  | case4 c p ih =>
    rw [List.map_cons, List.map_cons, hself rfl]
    cases s with
    | nil => rfl
    | cons d t => exact congrArg (same (f c) (f d) && ·) (ih t)
  | case5 c p hpercent hunderscore hslash ih =>
    -- the character in front stands for itself, also when it has been changed
    have hpercent' : f c ≠ '%' := fun h => hpercent ((hf.eq_iff rfl).1 h)
    have hunderscore' : f c ≠ '_' := fun h => hunderscore ((hf.eq_iff rfl).1 h)
    have hend : c = '\\' → p = [] := by
      intro hc
      cases p with
      | nil => rfl
      | cons d q => exact (hslash d q hc rfl).elim
    have hend' : f c = '\\' → p.map f = [] := fun h => by rw [hend ((hf.eq_iff rfl).1 h)]; rfl
    rw [Bool.eq_iff_iff, List.map_cons, like_char hpercent' hunderscore' hend',
      like_char hpercent hunderscore hend]
    cases s with
    | nil => simp
    | cons d t => simp [ih]

end Text.Like
