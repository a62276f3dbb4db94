import Mathlib.Computability.Language

/-!
# Regular expressions with anchors

The part of the regular expressions of Python that is built of character sets, `^`, `$`,
sequences, `?` and `*`, and what `fullmatch` says of a text.

* `Pattern` — the expressions; `Pattern.Matches` — what they match, and where.
* `Pattern.fullmatch` — a backtracking matcher; `fullmatch_iff` — it finds every match.
* `Pattern.Plain` — expressions that match the same texts everywhere, each a language.
-/

namespace Text

/-- A range of characters, both ends included. -/
abbrev CharRange := Char × Char

/-- `[…]`. -/
def inSet (ranges : List CharRange) (c : Char) : Bool :=
  ranges.any fun r => decide (r.1 ≤ c) && decide (c ≤ r.2)

@[simp] theorem inSet_nil (c : Char) : inSet [] c = false := rfl

@[simp] theorem inSet_cons (a b : Char) (ranges : List CharRange) (c : Char) :
    inSet ((a, b) :: ranges) c = true ↔ a ≤ c ∧ c ≤ b ∨ inSet ranges c = true := by
  rw [inSet, List.any_cons, Bool.or_eq_true, Bool.and_eq_true, decide_eq_true_eq,
    decide_eq_true_eq]
  rfl

/-- A range of one character. -/
theorem range_self {a c : Char} : a ≤ c ∧ c ≤ a ↔ c = a :=
  ⟨fun h => Char.le_antisymm h.2 h.1, fun h => h ▸ ⟨Char.le_refl _, Char.le_refl _⟩⟩

inductive Pattern where
  /-- `^`. -/
  | start
  /-- `$`. -/
  | finish
  | set (ranges : List CharRange)
  | seq (p q : Pattern)
  /-- `p?`. -/
  | opt (p : Pattern)
  /-- `p*`. -/
  | star (p : Pattern)

namespace Pattern

/-- `p+`. -/
def plus (p : Pattern) : Pattern := .seq p (.star p)

/-- A character. -/
def char (c : Char) : Pattern := .set [(c, c)]

/-- The expression matches `w` at position `i` of a text, where `rest` comes after it. -/
inductive Matches : Pattern → Nat → List Char → List Char → Prop
  | start {rest : List Char} : Matches .start 0 [] rest
  | finish {i : Nat} : Matches .finish i [] []
  /-- `$` also matches before a line feed that ends the text. -/
  | lineEnd {i : Nat} : Matches .finish i [] ['\n']
  | set {ranges : List CharRange} {i : Nat} {c : Char} {rest : List Char} :
      inSet ranges c = true → Matches (.set ranges) i [c] rest
  | seq {p q : Pattern} {i : Nat} {v w rest : List Char} : Matches p i v (w ++ rest) →
      Matches q (i + v.length) w rest → Matches (.seq p q) i (v ++ w) rest
  | skip {p : Pattern} {i : Nat} {rest : List Char} : Matches (.opt p) i [] rest
  | take {p : Pattern} {i : Nat} {w rest : List Char} : Matches p i w rest →
      Matches (.opt p) i w rest
  | stop {p : Pattern} {i : Nat} {rest : List Char} : Matches (.star p) i [] rest
  | again {p : Pattern} {i : Nat} {v w rest : List Char} : Matches p i v (w ++ rest) →
      Matches (.star p) (i + v.length) w rest → Matches (.star p) i (v ++ w) rest

/-! ## The matcher -/

/-- What is to be done at a position, before the rest of the text. -/
abbrev Continue := Nat → List Char → Bool

/-- `p*`, by at most `n` rounds that each match something. -/
def rounds (p : Nat → List Char → Continue → Bool) : Nat → Nat → List Char → Continue → Bool
  | 0, i, cs, k => k i cs
  | n + 1, i, cs, k =>
    p i cs (fun i' cs' => decide (cs'.length < cs.length) && rounds p n i' cs' k) || k i cs

/-- Match at position `i`, before `cs`, and go on; go back where that fails. -/
def run : Pattern → Nat → List Char → Continue → Bool
  | .start, i, cs, k => decide (i = 0) && k i cs
  | .finish, i, cs, k => decide (cs = [] ∨ cs = ['\n']) && k i cs
  | .set _, _, [], _ => false
  | .set ranges, i, c :: cs, k => inSet ranges c && k (i + 1) cs
  | .seq p q, i, cs, k => p.run i cs fun i' cs' => q.run i' cs' k
  | .opt p, i, cs, k => p.run i cs k || k i cs
  | .star p, i, cs, k => rounds p.run cs.length i cs k

/-- `re.compile(p).fullmatch(text)`. -/
def fullmatch (p : Pattern) (text : List Char) : Bool := p.run 0 text fun _ rest => rest.isEmpty

/-- A match of `p*` is empty or begins with a round that matches something. -/
theorem Matches.star_cases {p : Pattern} {i : Nat} {w rest : List Char}
    (h : Matches (.star p) i w rest) : w = [] ∨ ∃ u v, u ≠ [] ∧ w = u ++ v ∧
      Matches p i u (v ++ rest) ∧ Matches (.star p) (i + u.length) v rest := by
  generalize hq : Pattern.star p = q at h
  induction h with
  | stop => exact Or.inl rfl
  | again hp hs ihp ih =>
    rename_i q i v w rest
    cases hq
    by_cases hv : v = []
    · subst hv
      simpa using ih rfl
    · exact Or.inr ⟨v, w, hv, rfl, hp, hs⟩
  | _ => cases hq

/-- What a matcher is right about: it goes on behind every match, and nowhere else. -/
def Finds (p : Pattern) (f : Nat → List Char → Continue → Bool) : Prop :=
  ∀ i cs k, f i cs k = true ↔
    ∃ w rest, cs = w ++ rest ∧ Matches p i w rest ∧ k (i + w.length) rest = true

theorem finds_rounds {p : Pattern} {f : Nat → List Char → Continue → Bool} (hf : Finds p f)
    (n i : Nat) (cs : List Char) (k : Continue) (hn : cs.length ≤ n) :
    rounds f n i cs k = true ↔
      ∃ w rest, cs = w ++ rest ∧ Matches (.star p) i w rest ∧ k (i + w.length) rest = true := by
  induction n generalizing i cs with
  | zero =>
    have hnil : cs = [] := List.length_eq_zero_iff.1 (Nat.le_zero.1 hn)
    subst hnil
    constructor
    · intro h
      exact ⟨[], [], rfl, .stop, h⟩
    · rintro ⟨w, rest, he, -, hk⟩
      obtain ⟨rfl, rfl⟩ := List.append_eq_nil_iff.1 he.symm
      exact hk
  | succ n ih =>
    rw [rounds, Bool.or_eq_true, hf]
    constructor
    · rintro (⟨u, cs', rfl, hu, hk⟩ | hk)
      · obtain ⟨hlt, hk⟩ := Bool.and_eq_true_iff.1 hk
        have hle : cs'.length ≤ n := by
          have := of_decide_eq_true hlt
          omega
        obtain ⟨v, rest, rfl, hv, hk⟩ := (ih _ _ hle).1 hk
        refine ⟨u ++ v, rest, (List.append_assoc ..).symm, .again hu hv, ?_⟩
        rw [List.length_append, ← Nat.add_assoc]
        exact hk
      · exact ⟨[], cs, rfl, .stop, hk⟩
    · rintro ⟨w, rest, rfl, hw, hk⟩
      rcases hw.star_cases with rfl | ⟨u, v, hu, rfl, hm, hs⟩
      · exact Or.inr hk
      · have hpos := List.length_pos_iff.2 hu
        have hlen : (v ++ rest).length < (u ++ v ++ rest).length := by
          simp only [List.length_append]
          omega
        refine Or.inl ⟨u, v ++ rest, List.append_assoc .., hm, ?_⟩
        rw [decide_eq_true hlen, Bool.true_and]
        refine (ih _ _ (by omega)).2 ⟨v, rest, rfl, hs, ?_⟩
        rw [List.length_append, ← Nat.add_assoc] at hk
        exact hk

/-- **The matcher finds every match**, and only matches. -/
theorem finds_run (p : Pattern) : Finds p p.run := by
  induction p with
  | start =>
    intro i cs k
    rw [run, Bool.and_eq_true, decide_eq_true_eq]
    constructor
    · rintro ⟨rfl, hk⟩
      exact ⟨[], cs, rfl, .start, hk⟩
    · rintro ⟨w, rest, rfl, hm, hk⟩
      cases hm
      exact ⟨rfl, hk⟩
  | finish =>
    intro i cs k
    rw [run, Bool.and_eq_true, decide_eq_true_eq]
    constructor
    · rintro ⟨rfl | rfl, hk⟩
      · exact ⟨[], [], rfl, .finish, hk⟩
      · exact ⟨[], ['\n'], rfl, .lineEnd, hk⟩
    · rintro ⟨w, rest, rfl, hm, hk⟩
      cases hm with
      | finish => exact ⟨Or.inl rfl, hk⟩
      | lineEnd => exact ⟨Or.inr rfl, hk⟩
  | set ranges =>
    intro i cs k
    cases cs with
    | nil =>
      rw [run]
      refine ⟨fun h => Bool.noConfusion h, ?_⟩
      rintro ⟨w, rest, he, hm, -⟩
      cases hm
      cases he
    | cons c cs =>
      rw [run, Bool.and_eq_true]
      constructor
      · rintro ⟨hc, hk⟩
        exact ⟨[c], cs, rfl, .set hc, hk⟩
      · rintro ⟨w, rest, he, hm, hk⟩
        cases hm with
        | set hc =>
          obtain ⟨rfl, rfl⟩ := List.cons_eq_cons.1 he
          exact ⟨hc, hk⟩
  | seq p q ihp ihq =>
    intro i cs k
    rw [run, ihp]
    constructor
    · rintro ⟨v, cs', rfl, hv, hk⟩
      obtain ⟨w, rest, rfl, hw, hk⟩ := (ihq _ _ _).1 hk
      refine ⟨v ++ w, rest, (List.append_assoc ..).symm, .seq hv hw, ?_⟩
      rw [List.length_append, ← Nat.add_assoc]
      exact hk
    · rintro ⟨w, rest, rfl, hm, hk⟩
      cases hm with
      | seq hv hw =>
        rename_i v w
        refine ⟨v, w ++ rest, List.append_assoc .., hv, (ihq _ _ _).2 ⟨w, rest, rfl, hw, ?_⟩⟩
        rw [List.length_append, ← Nat.add_assoc] at hk
        exact hk
  | opt p ih =>
    intro i cs k
    rw [run, Bool.or_eq_true, ih]
    constructor
    · rintro (⟨w, rest, he, hw, hk⟩ | hk)
      · exact ⟨w, rest, he, .take hw, hk⟩
      · exact ⟨[], cs, rfl, .skip, hk⟩
    · rintro ⟨w, rest, rfl, hm, hk⟩
      cases hm with
      | skip => exact Or.inr hk
      | take hw => exact Or.inl ⟨w, rest, rfl, hw, hk⟩
  | star p ih =>
    intro i cs k
    exact finds_rounds ih _ _ _ _ (Nat.le_refl _)

theorem fullmatch_iff {p : Pattern} {text : List Char} :
    p.fullmatch text = true ↔ Matches p 0 text [] := by
  rw [fullmatch, finds_run]
  constructor
  · rintro ⟨w, rest, rfl, hm, hk⟩
    have hnil : rest = [] := List.isEmpty_iff.1 hk
    subst hnil
    rwa [List.append_nil]
  · exact fun h => ⟨text, [], (List.append_nil _).symm, h, rfl⟩

/-! ## Expressions without anchors -/

/-- The expression matches the texts of the language, wherever they are. -/
def Plain (p : Pattern) (l : Language Char) : Prop := ∀ i w rest, Matches p i w rest ↔ w ∈ l

open Computability

/-- The texts of one character. -/
def single (ranges : List CharRange) : Language Char :=
  {w | ∃ c, inSet ranges c = true ∧ w = [c]}

theorem plain_set (ranges : List CharRange) : Plain (.set ranges) (single ranges) := by
  intro i w rest
  constructor
  · intro h
    cases h with
    | set hc => exact ⟨_, hc, rfl⟩
  · rintro ⟨c, hc, rfl⟩
    exact .set hc

theorem Plain.seq {p q : Pattern} {l m : Language Char} (hp : Plain p l) (hq : Plain q m) :
    Plain (.seq p q) (l * m) := by
  intro i w rest
  rw [Language.mem_mul]
  constructor
  · intro h
    cases h with
    | seq hv hw => exact ⟨_, (hp ..).1 hv, _, (hq ..).1 hw, rfl⟩
  · rintro ⟨v, hv, w, hw, rfl⟩
    exact .seq ((hp ..).2 hv) ((hq ..).2 hw)

theorem Plain.opt {p : Pattern} {l : Language Char} (hp : Plain p l) : Plain (.opt p) (1 + l) := by
  intro i w rest
  rw [Language.mem_add, Language.mem_one]
  constructor
  · intro h
    cases h with
    | skip => exact Or.inl rfl
    | take hw => exact Or.inr ((hp ..).1 hw)
  · rintro (rfl | hw)
    · exact .skip
    · exact .take ((hp ..).2 hw)

theorem Plain.star {p : Pattern} {l : Language Char} (hp : Plain p l) : Plain (.star p) l∗ := by
  intro i w rest
  rw [Language.mem_kstar]
  constructor
  · intro h
    generalize hq : Pattern.star p = q at h
    induction h with
    | stop => exact ⟨[], rfl, by simp⟩
    | again hv _ _ ih =>
      cases hq
      obtain ⟨ws, rfl, hws⟩ := ih rfl
      exact ⟨_ :: ws, rfl, List.forall_mem_cons.2 ⟨(hp ..).1 hv, hws⟩⟩
    | _ => cases hq
  · rintro ⟨ws, rfl, hws⟩
    induction ws generalizing i with
    | nil => exact .stop
    | cons v ws ih =>
      obtain ⟨hv, hws⟩ := List.forall_mem_cons.1 hws
      exact .again ((hp ..).2 hv) (ih _ hws)

/-- A text of one or more of the characters. -/
def word (ranges : List CharRange) : Language Char :=
  {w | w ≠ [] ∧ ∀ c ∈ w, inSet ranges c = true}

theorem Plain.word (ranges : List CharRange) : Plain (.plus (.set ranges)) (word ranges) := by
  intro i w rest
  rw [plus, (plain_set ranges).seq (plain_set ranges).star, Language.mem_mul]
  constructor
  · rintro ⟨_, ⟨c, hc, rfl⟩, v, hv, rfl⟩
    obtain ⟨ws, rfl, hws⟩ := Language.mem_kstar.1 hv
    refine ⟨by simp, fun d hd => ?_⟩
    rcases List.mem_append.1 hd with hd | hd
    · rw [List.mem_singleton.1 hd]
      exact hc
    · obtain ⟨u, hu, hd⟩ := List.mem_flatten.1 hd
      obtain ⟨c', hc', rfl⟩ := hws u hu
      rw [List.mem_singleton.1 hd]
      exact hc'
  · rintro ⟨hne, hall⟩
    obtain ⟨c, v, rfl⟩ := List.exists_cons_of_ne_nil hne
    obtain ⟨hc, hv⟩ := List.forall_mem_cons.1 hall
    refine ⟨[c], ⟨c, hc, rfl⟩, v, Language.mem_kstar.2 ⟨v.map fun d => [d], ?_, ?_⟩, rfl⟩
    · exact (List.flatMap_singleton' v).symm
    · intro u hu
      obtain ⟨d, hd, rfl⟩ := List.mem_map.1 hu
      exact ⟨d, hv d hd, rfl⟩

/-- **Anchors at both ends** change nothing for `fullmatch`. -/
theorem fullmatch_anchored {p : Pattern} {l : Language Char} (hp : Plain p l)
    (text : List Char) :
    (Pattern.seq .start (.seq p .finish)).fullmatch text = true ↔ text ∈ l := by
  rw [fullmatch_iff]
  constructor
  · intro h
    cases h with
    | seq h₁ h₂ =>
      cases h₁
      cases h₂ with
      | seq hm he =>
        cases he
        simpa using (hp ..).1 hm
  · intro h
    have hm : Matches (.seq p .finish) 0 text [] := by
      have hseq := Matches.seq ((hp 0 text ([] ++ [])).2 h) (Matches.finish (i := 0 + text.length))
      rwa [List.append_nil] at hseq
    exact Matches.seq (v := []) .start hm

end Pattern

end Text
