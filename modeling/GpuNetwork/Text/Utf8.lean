import Mathlib.Data.List.Basic
import Mathlib.Tactic.NormNum

/-!
# How long a text is in UTF-8

A limit on the characters of a text is no limit on its bytes.  What is cut off after so many
bytes may be all that tells two texts apart.

* `encode` — the bytes; `encode_injective`.
* `sibling` — a character that differs in its last byte alone.
* `ToldApart`, `toldApart_iff` — the texts that the first bytes determine.
-/

namespace Text.Utf8

/-- The bytes of a text. -/
def encode (cs : List Char) : List UInt8 := cs.flatMap String.utf8EncodeChar

@[simp] theorem encode_nil : encode [] = [] := rfl

theorem encode_cons (c : Char) (cs : List Char) :
    encode (c :: cs) = String.utf8EncodeChar c ++ encode cs := rfl

theorem encode_append (cs ds : List Char) : encode (cs ++ ds) = encode cs ++ encode ds :=
  List.flatMap_append

theorem utf8Encode_eq (cs : List Char) : cs.utf8Encode = (encode cs).toByteArray := rfl

theorem encode_eq (cs : List Char) : encode cs = cs.utf8Encode.data.toList := by
  rw [utf8Encode_eq, List.toList_data_toByteArray]

theorem encode_injective : Function.Injective encode := by
  intro cs ds h
  have hbytes : cs.utf8Encode = ds.utf8Encode := by rw [utf8Encode_eq, utf8Encode_eq, h]
  have hdec := List.utf8Decode?_utf8Encode (l := cs)
  rw [hbytes, List.utf8Decode?_utf8Encode, Option.some.injEq] at hdec
  exact (congrArg Array.toList hdec).symm

/-- A text that begins with the bytes of another one begins with its characters. -/
theorem prefix_of_encode {cs ds : List Char} {rest : List UInt8}
    (h : encode ds = encode cs ++ rest) : cs <+: ds := by
  refine List.isPrefix_of_utf8Encode_append_eq_utf8Encode rest.toByteArray ?_
  rw [utf8Encode_eq, utf8Encode_eq, h, List.toByteArray_append]

/-- A character takes at least one byte. -/
theorem length_le (cs : List Char) : cs.length ≤ (encode cs).length := by
  induction cs with
  | nil => exact le_rfl
  | cons c cs ih =>
    have hc : 0 < c.utf8Size := Char.utf8Size_pos c
    rw [encode_cons, List.length_append, String.length_utf8EncodeChar, List.length_cons]
    omega

/-! ## Characters that differ in the last byte -/

/-- The code point next to it, of the same pair. -/
def sibling (c : Char) : Char :=
  Char.ofNat (if c.toNat % 2 = 0 then c.toNat + 1 else c.toNat - 1)

theorem toNat_sibling (c : Char) :
    (sibling c).toNat = if c.toNat % 2 = 0 then c.toNat + 1 else c.toNat - 1 := by
  have hvalid : Nat.isValidChar (if c.toNat % 2 = 0 then c.toNat + 1 else c.toNat - 1) := by
    have hc : c.toNat < 0xd800 ∨ (0xdfff < c.toNat ∧ c.toNat < 0x110000) := c.valid
    unfold Nat.isValidChar
    split <;> omega
  rw [sibling, Char.ofNat, dif_pos hvalid]
  rfl

theorem sibling_ne (c : Char) : sibling c ≠ c := by
  intro h
  have hnat := toNat_sibling c
  rw [h] at hnat
  split at hnat <;> omega

/-- The bytes of a character, by its code point. -/
theorem utf8EncodeChar_eq (c : Char) : String.utf8EncodeChar c =
    if c.toNat ≤ 0x7f then [UInt8.ofNat c.toNat]
    else if c.toNat ≤ 0x7ff then
      [UInt8.ofNat (c.toNat / 64 % 0x20 + 0xc0), UInt8.ofNat (c.toNat % 0x40 + 0x80)]
    else if c.toNat ≤ 0xffff then
      [UInt8.ofNat (c.toNat / 4096 % 0x10 + 0xe0), UInt8.ofNat (c.toNat / 64 % 0x40 + 0x80),
        UInt8.ofNat (c.toNat % 0x40 + 0x80)]
    else
      [UInt8.ofNat (c.toNat / 262144 % 0x08 + 0xf0), UInt8.ofNat (c.toNat / 4096 % 0x40 + 0x80),
        UInt8.ofNat (c.toNat / 64 % 0x40 + 0x80), UInt8.ofNat (c.toNat % 0x40 + 0x80)] := rfl

theorem encode_sibling (c : Char) : ∃ bs b b', String.utf8EncodeChar c = bs ++ [b] ∧
    String.utf8EncodeChar (sibling c) = bs ++ [b'] := by
  have hnat := toNat_sibling c
  -- the two are on the same side of each limit, and agree beyond their last bits
  have hsame : (sibling c).toNat / 64 = c.toNat / 64 := by split at hnat <;> omega
  have hsame' : (sibling c).toNat / 4096 = c.toNat / 4096 := by split at hnat <;> omega
  have hsame'' : (sibling c).toNat / 262144 = c.toNat / 262144 := by split at hnat <;> omega
  rw [utf8EncodeChar_eq, utf8EncodeChar_eq, hsame, hsame', hsame'']
  by_cases h₁ : c.toNat ≤ 0x7f
  · rw [if_pos h₁, if_pos (by omega)]
    exact ⟨[], _, _, rfl, rfl⟩
  by_cases h₂ : c.toNat ≤ 0x7ff
  · rw [if_neg h₁, if_pos h₂, if_neg (by omega), if_pos (by omega)]
    exact ⟨[_], _, _, rfl, rfl⟩
  by_cases h₃ : c.toNat ≤ 0xffff
  · rw [if_neg h₁, if_neg h₂, if_pos h₃, if_neg (by omega), if_neg (by omega), if_pos (by omega)]
    exact ⟨[_, _], _, _, rfl, rfl⟩
  · rw [if_neg h₁, if_neg h₂, if_neg h₃, if_neg (by omega), if_neg (by omega), if_neg (by omega)]
    exact ⟨[_, _, _], _, _, rfl, rfl⟩

/-! ## What the first bytes determine -/

/-- No other text of at most `n` characters has the same first `n` bytes. -/
def ToldApart (n : Nat) (cs : List Char) : Prop :=
  ∀ ds, ds.length ≤ n → (encode ds).take n = (encode cs).take n → ds = cs

/-- Where bytes are cut off, the last character may be another one. -/
theorem exists_twin {n : Nat} {cs : List Char} (h : n < (encode cs).length) :
    ∃ ds, ds ≠ cs ∧ ds.length = cs.length ∧ (encode ds).take n = (encode cs).take n := by
  have hne : cs ≠ [] := by
    rintro rfl
    simp at h
  obtain ⟨cs, c, rfl⟩ : ∃ ds c, cs = ds ++ [c] := ⟨_, _, (List.dropLast_append_getLast hne).symm⟩
  obtain ⟨bs, b, b', hb, hb'⟩ := encode_sibling c
  have hbytes : ∀ {d : Char} {e : UInt8}, String.utf8EncodeChar d = bs ++ [e] →
      encode (cs ++ [d]) = (encode cs ++ bs) ++ [e] := by
    intro d e hd
    rw [encode_append, encode_cons, hd, encode_nil, List.append_nil, List.append_assoc]
  rw [hbytes hb, List.length_append, List.length_singleton] at h
  refine ⟨cs ++ [sibling c], ?_, by simp, ?_⟩
  · intro heq
    simp [sibling_ne] at heq
  · have hcut : ∀ e, ((encode cs ++ bs) ++ [e]).take n = (encode cs ++ bs).take n :=
      fun e => List.take_append_of_le_length (by omega)
    rw [hbytes hb, hbytes hb', hcut, hcut]

/-- **The first bytes determine a text that is shorter, or that has as many characters as
bytes.** -/
theorem toldApart_iff {n : Nat} {cs : List Char} (hlen : cs.length ≤ n) :
    ToldApart n cs ↔
      (encode cs).length < n ∨ ((encode cs).length = n ∧ cs.length = n) := by
  constructor
  · intro h
    by_contra hcon
    rw [not_or, not_and_or] at hcon
    obtain ⟨hge, hdiff⟩ := hcon
    by_cases hlong : n < (encode cs).length
    · obtain ⟨ds, hne, hds, htake⟩ := exists_twin hlong
      exact hne (h ds (by omega) htake)
    · -- there is room for one more character, which is cut off
      have hexact : (encode cs).length = n := by omega
      have hmore : cs ++ ['a'] = cs := by
        refine h _ ?_ ?_
        · rw [List.length_append, List.length_singleton]
          omega
        · rw [encode_append, List.take_append_of_le_length (by omega)]
      simp at hmore
  · intro h ds hds htake
    have hle : (encode cs).length ≤ n := by omega
    rw [List.take_of_length_le hle] at htake
    rcases h with hshort | ⟨hexact, hchars⟩
    · -- nothing is cut off
      have hds' : (encode ds).take n = encode ds := by
        refine List.take_of_length_le ?_
        have hmin := congrArg List.length htake
        rw [List.length_take] at hmin
        omega
      exact encode_injective (hds' ▸ htake)
    · have hsplit : encode ds = encode cs ++ (encode ds).drop n := by
        rw [← htake, List.take_append_drop]
      exact ((prefix_of_encode hsplit).eq_of_length (by
        have hpre := (prefix_of_encode hsplit).length_le
        omega)).symm

end Text.Utf8
