import Mathlib.Data.List.Basic
import Mathlib.Tactic.IntervalCases
import Mathlib.Tactic.NormNum

/-!
# Numerals of fixed width

A number is written in a base of at most sixteen with a given count of digits, leading
zeros included, and read back from exactly that many.

* `padded` — the numeral; `digits?` — its value.
* `digits?_padded` — reading undoes writing, for numbers that fit.
-/

namespace Text

/-- The value of a digit in base `b`, in either letter case. -/
def digit? (b : Nat) (c : Char) : Option Nat :=
  let v :=
    if '0' ≤ c ∧ c ≤ '9' then some (c.toNat - '0'.toNat)
    else if 'a' ≤ c ∧ c ≤ 'f' then some (c.toNat - 'a'.toNat + 10)
    else if 'A' ≤ c ∧ c ≤ 'F' then some (c.toNat - 'A'.toNat + 10)
    else none
  v.filter (· < b)

/-- The value of a string of digits; `none` when another character is in it. -/
def digits? (b : Nat) (cs : List Char) : Option Nat :=
  cs.foldlM (fun n c => (digit? b c).map (b * n + ·)) 0

/-- `n` in base `b` with `w` digits, the most significant first. -/
def padded (b : Nat) : Nat → Nat → List Char
  | 0, _ => []
  | w + 1, n => padded b w (n / b) ++ [Nat.digitChar (n % b)]

@[simp] theorem length_padded (b w n : Nat) : (padded b w n).length = w := by
  induction w generalizing n with
  | zero => rfl
  | succ w ih => simp [padded, ih]

theorem digit?_digitChar {b d : Nat} (hb : b ≤ 16) (hd : d < b) :
    digit? b (Nat.digitChar d) = some d := by
  have h16 : d < 16 := by omega
  have hval : ∀ d < 16, digit? 16 (Nat.digitChar d) = some d := by decide
  have h := hval d h16
  simp only [digit?, Option.filter_eq_some_iff] at h ⊢
  exact ⟨h.1, by simpa using hd⟩

theorem digits?_append (b : Nat) (cs ds : List Char) :
    digits? b (cs ++ ds) =
      (digits? b cs).bind fun n => ds.foldlM (fun n c => (digit? b c).map (b * n + ·)) n := by
  rw [digits?, List.foldlM_append]
  rfl

/-- **Reading undoes writing.** -/
theorem digits?_padded {b : Nat} (hb : 2 ≤ b) (hb' : b ≤ 16) (w n : Nat) (hn : n < b ^ w) :
    digits? b (padded b w n) = some n := by
  induction w generalizing n with
  | zero =>
    have hz : n = 0 := by simpa using hn
    subst hz
    rfl
  | succ w ih =>
    have hlt : n / b < b ^ w := by
      rw [Nat.div_lt_iff_lt_mul (by omega)]
      rwa [pow_succ] at hn
    have hd : digit? b (Nat.digitChar (n % b)) = some (n % b) :=
      digit?_digitChar hb' (Nat.mod_lt _ (by omega))
    rw [padded, digits?_append, ih _ hlt]
    simp [hd, Nat.div_add_mod]

/-- The characters of a numeral are digits. -/
theorem mem_padded {b w n : Nat} (hb : 0 < b) {c : Char} (h : c ∈ padded b w n) :
    ∃ d < b, c = Nat.digitChar d := by
  induction w generalizing n with
  | zero => simp [padded] at h
  | succ w ih =>
    rw [padded, List.mem_append, List.mem_singleton] at h
    rcases h with h | rfl
    · exact ih h
    · exact ⟨n % b, Nat.mod_lt _ hb, rfl⟩

end Text
