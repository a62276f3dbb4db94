import Mathlib.Data.List.DropRight
import Mathlib.Tactic.IntervalCases

/-!
# Base64 for file names and URLs

The encoding of bytes by the letters, the digits, `-` and `_`, with its padding, and the
lenient decoder that skips what is not in the alphabet.

* `encode`, `decode` — the two directions; `decode_encode` — decoding undoes encoding.
* `unpadded`, `repadded` — the padding taken off, and put back from the length alone;
  `repadded_unpadded`.
* `mem_unpadded` — what is left needs no escaping.
-/

namespace Text.Base64

/-! ## The alphabet -/

def alphabet : List Char :=
  "ABCDEFGHIJKLMNOPQRSTUVWXYZabcdefghijklmnopqrstuvwxyz0123456789-_".toList

/-- The character of six bits. -/
def sextet (v : Nat) : Char := alphabet.getD v 'A'

/-- The bits of a character; those of the standard alphabet are read as well. -/
def value? (c : Char) : Option Nat :=
  if 'A' ≤ c ∧ c ≤ 'Z' then some (c.toNat - 'A'.toNat)
  else if 'a' ≤ c ∧ c ≤ 'z' then some (c.toNat - 'a'.toNat + 26)
  else if '0' ≤ c ∧ c ≤ '9' then some (c.toNat - '0'.toNat + 52)
  else if c = '-' ∨ c = '+' then some 62
  else if c = '_' ∨ c = '/' then some 63
  else none

theorem value?_sextet : ∀ v < 64, value? (sextet v) = some v := by decide +kernel

theorem sextet_ne_pad : ∀ v < 64, sextet v ≠ '=' := by decide +kernel

theorem sextet_mem : ∀ v < 64, sextet v ∈ alphabet := by decide +kernel

/-! ## Encoding -/

/-- The padding character. -/
def pad : Char := '='

/-- Three bytes become four characters; what remains is filled up with zero bits, and its
characters with padding. -/
def encode : List UInt8 → List Char
  | [] => []
  | [a] => [sextet (a.toNat / 4), sextet (a.toNat % 4 * 16), pad, pad]
  | [a, b] =>
    [sextet (a.toNat / 4), sextet (a.toNat % 4 * 16 + b.toNat / 16),
      sextet (b.toNat % 16 * 4), pad]
  | a :: b :: c :: bs =>
    sextet (a.toNat / 4) :: sextet (a.toNat % 4 * 16 + b.toNat / 16) ::
      sextet (b.toNat % 16 * 4 + c.toNat / 64) :: sextet (c.toNat % 64) :: encode bs

/-! ## Decoding -/

/-- The bits that wait for the next character: none, or the low six, four or two of the
last one. -/
inductive Carry where
  | clear
  | six (v : Nat)
  | four (v : Nat)
  | two (v : Nat)

/-- Enough characters of a group are there for padding to end it. -/
def Carry.ends (pads : Nat) : Carry → Bool
  | .four _ => decide (2 ≤ pads)
  | .two _ => true
  | _ => false

/-- The padding a group has seen counts once two of its characters are there. -/
def Carry.padded (pads : Nat) : Carry → Nat
  | .four _ => pads + 1
  | _ => pads

/-- The lenient decoder: characters outside the alphabet are skipped, and a group that is
ended by its padding ends the text. -/
def decodeFrom : Carry → Nat → List Char → Option (List UInt8)
  | .clear, _, [] => some []
  | _, _, [] => none
  | carry, pads, c :: cs =>
    if c = pad then
      if carry.ends (pads + 1) then some [] else decodeFrom carry (carry.padded pads) cs
    else
      match value? c with
      | none => decodeFrom carry pads cs
      | some v =>
        match carry with
        | .clear => decodeFrom (.six v) 0 cs
        | .six u => (decodeFrom (.four (v % 16)) 0 cs).map (.ofNat (u * 4 + v / 16) :: ·)
        | .four u => (decodeFrom (.two (v % 4)) 0 cs).map (.ofNat (u * 16 + v / 4) :: ·)
        | .two u => (decodeFrom .clear 0 cs).map (.ofNat (u * 64 + v) :: ·)

def decode (cs : List Char) : Option (List UInt8) := decodeFrom .clear 0 cs

section

variable {v u : Nat} {cs : List Char} {pads : Nat}

theorem decodeFrom_clear (hv : v < 64) :
    decodeFrom .clear pads (sextet v :: cs) = decodeFrom (.six v) 0 cs := by
  simp [decodeFrom, pad, sextet_ne_pad v hv, value?_sextet v hv]

theorem decodeFrom_six (hv : v < 64) : decodeFrom (.six u) pads (sextet v :: cs) =
    (decodeFrom (.four (v % 16)) 0 cs).map (.ofNat (u * 4 + v / 16) :: ·) := by
  simp [decodeFrom, pad, sextet_ne_pad v hv, value?_sextet v hv]

theorem decodeFrom_four (hv : v < 64) : decodeFrom (.four u) pads (sextet v :: cs) =
    (decodeFrom (.two (v % 4)) 0 cs).map (.ofNat (u * 16 + v / 4) :: ·) := by
  simp [decodeFrom, pad, sextet_ne_pad v hv, value?_sextet v hv]

theorem decodeFrom_two (hv : v < 64) : decodeFrom (.two u) pads (sextet v :: cs) =
    (decodeFrom .clear 0 cs).map (.ofNat (u * 64 + v) :: ·) := by
  simp [decodeFrom, pad, sextet_ne_pad v hv, value?_sextet v hv]

end

/-- **Decoding undoes encoding.** -/
theorem decode_encode (bs : List UInt8) : decode (encode bs) = some bs := by
  unfold decode
  fun_induction encode bs with
  | case1 => rfl
  | case2 a =>
    have ha := a.toNat_lt
    have hbyte : a.toNat / 4 * 4 + a.toNat % 4 * 16 / 16 = a.toNat := by omega
    rw [decodeFrom_clear (by omega), decodeFrom_six (by omega), hbyte]
    simp [decodeFrom, pad, Carry.ends, Carry.padded]
  | case3 a b =>
    have ha := a.toNat_lt
    have hb := b.toNat_lt
    have hbyte : a.toNat / 4 * 4 + (a.toNat % 4 * 16 + b.toNat / 16) / 16 = a.toNat := by omega
    have hbyte' : (a.toNat % 4 * 16 + b.toNat / 16) % 16 * 16 + b.toNat % 16 * 4 / 4 = b.toNat := by
      omega
    rw [decodeFrom_clear (by omega), decodeFrom_six (by omega), decodeFrom_four (by omega), hbyte,
      hbyte']
    simp [decodeFrom, pad, Carry.ends]
  | case4 a b c bs ih =>
    have ha := a.toNat_lt
    have hb := b.toNat_lt
    have hc := c.toNat_lt
    have hbyte : a.toNat / 4 * 4 + (a.toNat % 4 * 16 + b.toNat / 16) / 16 = a.toNat := by omega
    have hbyte' : (a.toNat % 4 * 16 + b.toNat / 16) % 16 * 16 +
        (b.toNat % 16 * 4 + c.toNat / 64) / 4 = b.toNat := by omega
    have hbyte'' : (b.toNat % 16 * 4 + c.toNat / 64) % 4 * 64 + c.toNat % 64 = c.toNat := by omega
    rw [decodeFrom_clear (by omega), decodeFrom_six (by omega), decodeFrom_four (by omega),
      decodeFrom_two (by omega), ih, hbyte, hbyte', hbyte'']
    simp

/-! ## Padding -/

/-- The text without its padding. -/
def unpadded (cs : List Char) : List Char := cs.rdropWhile (· = pad)

/-- The text filled up to a multiple of four characters. -/
def repadded (cs : List Char) : List Char := cs ++ List.replicate ((4 - cs.length % 4) % 4) pad

/-- The characters that carry bits, without any padding. -/
def body : List UInt8 → List Char
  | [] => []
  | [a] => [sextet (a.toNat / 4), sextet (a.toNat % 4 * 16)]
  | [a, b] =>
    [sextet (a.toNat / 4), sextet (a.toNat % 4 * 16 + b.toNat / 16), sextet (b.toNat % 16 * 4)]
  | a :: b :: c :: bs =>
    sextet (a.toNat / 4) :: sextet (a.toNat % 4 * 16 + b.toNat / 16) ::
      sextet (b.toNat % 16 * 4 + c.toNat / 64) :: sextet (c.toNat % 64) :: body bs

theorem mem_body {bs : List UInt8} {x : Char} (h : x ∈ body bs) : ∃ v < 64, x = sextet v := by
  revert h
  fun_induction body bs with
  | case1 => simp
  | case2 a =>
    have ha := a.toNat_lt
    intro h
    rw [List.mem_cons, List.mem_singleton] at h
    rcases h with rfl | rfl
    · exact ⟨_, by omega, rfl⟩
    · exact ⟨_, by omega, rfl⟩
  | case3 a b =>
    have ha := a.toNat_lt
    have hb := b.toNat_lt
    intro h
    rw [List.mem_cons, List.mem_cons, List.mem_singleton] at h
    rcases h with rfl | rfl | rfl
    · exact ⟨_, by omega, rfl⟩
    · exact ⟨_, by omega, rfl⟩
    · exact ⟨_, by omega, rfl⟩
  | case4 a b c bs ih =>
    have ha := a.toNat_lt
    have hb := b.toNat_lt
    have hc := c.toNat_lt
    intro h
    rw [List.mem_cons, List.mem_cons, List.mem_cons, List.mem_cons] at h
    rcases h with rfl | rfl | rfl | rfl | h
    · exact ⟨_, by omega, rfl⟩
    · exact ⟨_, by omega, rfl⟩
    · exact ⟨_, by omega, rfl⟩
    · exact ⟨_, by omega, rfl⟩
    · exact ih h

/-- The padding is what fills the last group. -/
theorem encode_eq (bs : List UInt8) : encode bs = repadded (body bs) := by
  fun_induction encode bs with
  | case1 => rfl
  | case2 a => rfl
  | case3 a b => rfl
  | case4 a b c bs ih =>
    have hlen : ∀ n, (4 - (n + 1 + 1 + 1 + 1) % 4) % 4 = (4 - n % 4) % 4 := by omega
    rw [ih, body, repadded, repadded]
    simp only [List.length_cons, List.cons_append, hlen]

theorem unpadded_append {cs : List Char} (h : ∀ c ∈ cs, c ≠ pad) (k : Nat) :
    unpadded (cs ++ List.replicate k pad) = cs := by
  unfold unpadded
  induction k with
  | zero =>
    rw [List.replicate_zero, List.append_nil, List.rdropWhile_eq_self_iff]
    intro hne hlast
    exact h _ (List.getLast_mem hne) (by simpa using hlast)
  | succ k ih =>
    rw [List.replicate_succ', ← List.append_assoc, List.rdropWhile_concat_pos _ _ _ (by simp), ih]

theorem unpadded_encode (bs : List UInt8) : unpadded (encode bs) = body bs := by
  rw [encode_eq, repadded]
  refine unpadded_append (fun c hc => ?_) _
  obtain ⟨v, hv, rfl⟩ := mem_body hc
  exact sextet_ne_pad v hv

/-- **The length gives the padding back.** -/
theorem repadded_unpadded (bs : List UInt8) : repadded (unpadded (encode bs)) = encode bs := by
  rw [unpadded_encode, ← encode_eq]

/-- The encoding is made of the alphabet and the padding. -/
theorem mem_encode {bs : List UInt8} {x : Char} (h : x ∈ encode bs) : x ∈ alphabet ∨ x = pad := by
  rw [encode_eq, repadded, List.mem_append] at h
  rcases h with h | h
  · obtain ⟨v, hv, rfl⟩ := mem_body h
    exact Or.inl (sextet_mem v hv)
  · exact Or.inr (List.eq_of_mem_replicate h)

/-- What is left without padding is made of the alphabet alone. -/
theorem mem_unpadded {bs : List UInt8} {x : Char} (h : x ∈ unpadded (encode bs)) :
    x ∈ alphabet := by
  rw [unpadded_encode] at h
  obtain ⟨v, hv, rfl⟩ := mem_body h
  exact sextet_mem v hv

end Text.Base64
