import GpuNetwork.Text.Numeral

/-!
# JSON

The values of JSON, a parser that follows Python's `json.loads`, and the compact writer for
strings and objects.  A string that is read is a list of code points, for half a pair of
surrogates is one too.

* `loads` — the parser; `Value.field?` — a member of an object.
* `quoted`, `dumpsObject` — the writer, in ASCII.
* `value?_of_enough` — the fuel of the parser is enough for every text.
* `string?_of_plain`, `loads_dumpsPair` — reading undoes writing, for plain strings.
-/

namespace Text.Json

/-- A JSON value.  A number is kept as its text. -/
inductive Value where
  | null
  | bool (b : Bool)
  | number (text : List Char)
  | string (codes : List Nat)
  | array (xs : List Value)
  | object (members : List (List Nat × Value))

/-- A member of an object: the last one of that name. -/
def Value.field? (name : List Char) : Value → Option Value
  | .object members => (members.reverse.find? fun m => m.1 = name.map Char.toNat).map (·.2)
  | _ => none

/-! ## Parsing -/

def isSpace (c : Char) : Bool := c = ' ' || c = '\t' || c = '\n' || c = '\r'

def skipSpace (cs : List Char) : List Char := cs.dropWhile isSpace

/-- The characters of a backslash escape, apart from `\u`. -/
def escape? : Char → Option Char
  | '"' => some '"'
  | '\\' => some '\\'
  | '/' => some '/'
  | 'b' => some (Char.ofNat 8)
  | 'f' => some (Char.ofNat 12)
  | 'n' => some '\n'
  | 'r' => some '\r'
  | 't' => some '\t'
  | _ => none

/-- What a string is written in: characters, and code units of UTF-16 behind `\u`. -/
inductive Piece where
  | char (c : Char)
  | unit (u : Nat)

/-- The pieces of a string, from behind its opening quote; the rest of the text. -/
def pieces? : List Char → Option (List Piece × List Char)
  | [] => none
  | c :: cs =>
    if c = '"' then some ([], cs)
    else if c = '\\' then
      match cs with
      | [] => none
      | 'u' :: h₁ :: h₂ :: h₃ :: h₄ :: cs =>
        (digits? 16 [h₁, h₂, h₃, h₄]).bind fun u =>
          (pieces? cs).map fun x => (.unit u :: x.1, x.2)
      | e :: cs => (escape? e).bind fun d => (pieces? cs).map fun x => (.char d :: x.1, x.2)
    else if c.toNat < 32 then none
    else (pieces? cs).map fun x => (.char c :: x.1, x.2)

/-- The code points of a string: a pair of surrogates is one, and half a pair stands for
itself. -/
def joined : List Piece → List Nat
  | [] => []
  | .char c :: ps => c.toNat :: joined ps
  | .unit u :: .unit v :: ps =>
    if 0xD800 ≤ u ∧ u < 0xDC00 ∧ 0xDC00 ≤ v ∧ v < 0xE000 then
      (0x10000 + (u - 0xD800) * 0x400 + (v - 0xDC00)) :: joined ps
    else u :: joined (.unit v :: ps)
  | .unit u :: ps => u :: joined ps

/-- A string, from behind its opening quote; the rest of the text. -/
def string? (cs : List Char) : Option (List Nat × List Char) :=
  (pieces? cs).map fun x => (joined x.1, x.2)

def isDigit (c : Char) : Bool := '0' ≤ c && c ≤ '9'

/-- The integer part of a number. -/
def integer? : List Char → Option (List Char × List Char)
  | '0' :: cs => some (['0'], cs)
  | c :: cs => if isDigit c then some (c :: cs.takeWhile isDigit, cs.dropWhile isDigit) else none
  | [] => none

/-- The digits behind a mark, which is left alone when there are none. -/
def digitsAfter (mark cs : List Char) : List Char × List Char :=
  if cs.takeWhile isDigit = [] then ([], mark ++ cs)
  else (mark ++ cs.takeWhile isDigit, cs.dropWhile isDigit)

def fraction : List Char → List Char × List Char
  | '.' :: cs => digitsAfter ['.'] cs
  | cs => ([], cs)

def exponent : List Char → List Char × List Char
  | e :: cs =>
    if e = 'e' ∨ e = 'E' then
      match cs with
      | s :: cs' => if s = '+' ∨ s = '-' then digitsAfter [e, s] cs' else digitsAfter [e] cs
      | [] => ([], [e])
    else ([], e :: cs)
  | [] => ([], [])

/-- The digits of an integer that `int` reads. -/
def maxDigits : Nat := 4300

def number? (cs : List Char) : Option (Value × List Char) :=
  let sign := cs.takeWhile (· = '-')
  if 1 < sign.length then none
  else
    (integer? (cs.drop sign.length)).bind fun x =>
      let frac := fraction x.2
      let exp := exponent frac.2
      if frac.1 = [] ∧ exp.1 = [] ∧ maxDigits < x.1.length then none
      else some (.number (sign ++ x.1 ++ frac.1 ++ exp.1), exp.2)

/-- The constants, among them the three that are not JSON. -/
def constants : List (List Char × Value) :=
  [("null".toList, .null), ("true".toList, .bool true), ("false".toList, .bool false),
    ("NaN".toList, .number "NaN".toList), ("Infinity".toList, .number "Infinity".toList),
    ("-Infinity".toList, .number "-Infinity".toList)]

def literal? (cs : List Char) : Option (Value × List Char) :=
  match constants.find? fun k => k.1.isPrefixOf cs with
  | some k => some (k.2, cs.drop k.1.length)
  | none => number? cs

/-- Why a text is not read. -/
inductive Fault where
  /-- A `ValueError`. -/
  | malformed
  /-- `RecursionError`. -/
  | tooDeep
  deriving DecidableEq

/-- What is not there is malformed. -/
def required {α : Type} : Option α → Except Fault α
  | some a => .ok a
  | none => .error .malformed

mutual

/-- A value, at its first character.  The fuel bounds the nested values and the members, and
two units for a character are always enough; `room` is how many arrays and objects may be
opened around one another. -/
def value? : Nat → Nat → List Char → Except Fault (Value × List Char)
  | 0, _, _ => .error .malformed
  | fuel + 1, room, cs =>
    match cs with
    | '"' :: cs => (required (string? cs)).map fun x => (.string x.1, x.2)
    | '{' :: cs =>
      match room with
      | 0 => .error .tooDeep
      | room + 1 =>
        match skipSpace cs with
        | '}' :: rest => .ok (.object [], rest)
        | cs => (members? fuel room cs).map fun x => (.object x.1, x.2)
    | '[' :: cs =>
      match room with
      | 0 => .error .tooDeep
      | room + 1 =>
        match skipSpace cs with
        | ']' :: rest => .ok (.array [], rest)
        | cs => (elements? fuel room cs).map fun x => (.array x.1, x.2)
    | cs => required (literal? cs)

/-- The members of an object, from the first name to the closing brace. -/
def members? : Nat → Nat → List Char → Except Fault (List (List Nat × Value) × List Char)
  | 0, _, _ => .error .malformed
  | fuel + 1, room, cs =>
    match cs with
    | '"' :: cs =>
      (required (string? cs)).bind fun name =>
        match skipSpace name.2 with
        | ':' :: cs =>
          (value? fuel room (skipSpace cs)).bind fun v =>
            match skipSpace v.2 with
            | '}' :: rest => .ok ([(name.1, v.1)], rest)
            | ',' :: cs =>
              (members? fuel room (skipSpace cs)).map fun x => ((name.1, v.1) :: x.1, x.2)
            | _ => .error .malformed
        | _ => .error .malformed
    | _ => .error .malformed

/-- The elements of an array, from the first one to the closing bracket. -/
def elements? : Nat → Nat → List Char → Except Fault (List Value × List Char)
  | 0, _, _ => .error .malformed
  | fuel + 1, room, cs =>
    (value? fuel room cs).bind fun v =>
      match skipSpace v.2 with
      | ']' :: rest => .ok ([v.1], rest)
      | ',' :: cs => (elements? fuel room (skipSpace cs)).map fun x => (v.1 :: x.1, x.2)
      | _ => .error .malformed

end

/-- `json.loads`, in an interpreter that lets so many arrays and objects be open around
another one. -/
def loads (nesting : Nat) (cs : List Char) : Except Fault Value :=
  match value? (2 * cs.length + 1) (nesting + 1) (skipSpace cs) with
  | .ok (v, rest) => if (skipSpace rest).isEmpty then .ok v else .error .malformed
  | .error e => .error e

/-! ## The fuel is enough -/

theorem length_skipSpace_le (cs : List Char) : (skipSpace cs).length ≤ cs.length :=
  (List.dropWhile_suffix _).length_le

/-- What comes behind a first part that goes on in the same way. -/
theorem bind_congr_ok {α β : Type} {x : Except Fault α} {f g : α → Except Fault β}
    (h : ∀ a, x = .ok a → f a = g a) : x.bind f = x.bind g := by
  cases x with
  | error e => rfl
  | ok a => exact h a rfl

theorem of_map_eq_ok {α β : Type} {x : Except Fault α} {f : α → β} {b : β}
    (h : x.map f = .ok b) : ∃ a, x = .ok a ∧ f a = b := by
  cases x with
  | error e => cases h
  | ok a => exact ⟨a, rfl, Except.ok.inj h⟩

theorem of_bind_eq_ok {α β : Type} {x : Except Fault α} {f : α → Except Fault β} {b : β}
    (h : x.bind f = .ok b) : ∃ a, x = .ok a ∧ f a = .ok b := by
  cases x with
  | error e => cases h
  | ok a => exact ⟨a, rfl, h⟩

theorem of_required_eq_ok {α : Type} {o : Option α} {a : α} (h : required o = .ok a) :
    o = some a := by
  cases o with
  | none => cases h
  | some b => exact congrArg some (Except.ok.inj h)

/-! ### No part of the parser gives back more than it got -/

theorem length_of_pieces? {cs rest : List Char} {ps : List Piece}
    (h : pieces? cs = some (ps, rest)) : rest.length < cs.length := by
  fun_induction pieces? cs generalizing ps with
  | case1 => cases h
  | case2 cs =>
    cases h
    exact Nat.lt_succ_self _
  | case3 => cases h
  | case4 h₁ h₂ h₃ h₄ cs _ ih =>
    obtain ⟨u, -, h⟩ := Option.bind_eq_some_iff.1 h
    obtain ⟨x, hx, h⟩ := Option.map_eq_some_iff.1 h
    cases h
    have hlt := ih hx
    simp only [List.length_cons]
    omega
  | case5 e cs _ _ ih =>
    obtain ⟨d, -, h⟩ := Option.bind_eq_some_iff.1 h
    obtain ⟨x, hx, h⟩ := Option.map_eq_some_iff.1 h
    cases h
    have hlt := ih hx
    simp only [List.length_cons]
    omega
  | case6 => cases h
  | case7 c cs _ _ _ ih =>
    obtain ⟨x, hx, h⟩ := Option.map_eq_some_iff.1 h
    cases h
    exact Nat.lt_succ_of_lt (ih hx)

theorem length_of_string? {cs rest : List Char} {s : List Nat} (h : string? cs = some (s, rest)) :
    rest.length < cs.length := by
  obtain ⟨x, hx, h⟩ := Option.map_eq_some_iff.1 h
  cases h
  exact length_of_pieces? hx

theorem length_of_integer? {cs ds rest : List Char} (h : integer? cs = some (ds, rest)) :
    rest.length ≤ cs.length := by
  unfold integer? at h
  split at h
  · cases h
    exact Nat.le_succ _
  · split at h <;> cases h
    exact ((List.dropWhile_suffix _).length_le).trans (Nat.le_succ _)
  · cases h

theorem length_digitsAfter_le (mark cs : List Char) :
    (digitsAfter mark cs).2.length ≤ (mark ++ cs).length := by
  unfold digitsAfter
  split
  · exact le_rfl
  · rw [List.length_append]
    exact ((List.dropWhile_suffix _).length_le).trans (Nat.le_add_left _ _)

theorem length_fraction_le (cs : List Char) : (fraction cs).2.length ≤ cs.length := by
  unfold fraction
  split
  · exact length_digitsAfter_le _ _
  · exact le_rfl

theorem length_exponent_le (cs : List Char) : (exponent cs).2.length ≤ cs.length := by
  unfold exponent
  split
  · split
    · split
      · split
        · exact length_digitsAfter_le _ _
        · exact length_digitsAfter_le _ _
      · exact le_rfl
    · exact le_rfl
  · exact le_rfl

theorem length_of_number? {cs rest : List Char} {v : Value} (h : number? cs = some (v, rest)) :
    rest.length ≤ cs.length := by
  simp only [number?] at h
  split at h
  · cases h
  · obtain ⟨x, hx, h⟩ := Option.bind_eq_some_iff.1 h
    have hint := length_of_integer? hx
    rw [List.length_drop] at hint
    have hfrac := length_fraction_le x.2
    have hexp := length_exponent_le (fraction x.2).2
    split at h <;> cases h
    omega

theorem length_of_literal? {cs rest : List Char} {v : Value} (h : literal? cs = some (v, rest)) :
    rest.length ≤ cs.length := by
  unfold literal? at h
  split at h
  · cases h
    rw [List.length_drop]
    exact Nat.sub_le _ _
  · exact length_of_number? h

/-- With so much fuel, what is left over is no longer than the text. -/
structure Shortens (fuel : Nat) : Prop where
  value : ∀ {room cs v rest}, value? fuel room cs = .ok (v, rest) → rest.length ≤ cs.length
  members : ∀ {room cs ms rest}, members? fuel room cs = .ok (ms, rest) → rest.length ≤ cs.length
  elements : ∀ {room cs xs rest}, elements? fuel room cs = .ok (xs, rest) →
    rest.length ≤ cs.length

/-- Behind a bracket and blanks. -/
theorem length_le_of_skipSpace {c : Char} {cs ds rest : List Char} (h : skipSpace cs = ds)
    (hle : rest.length ≤ ds.length) : rest.length ≤ (c :: cs).length := by
  have hskip := length_skipSpace_le cs
  rw [h] at hskip
  rw [List.length_cons]
  omega

theorem Shortens.value_succ {fuel room : Nat} {cs rest : List Char} {v : Value}
    (ih : Shortens fuel) (h : value? (fuel + 1) room cs = .ok (v, rest)) :
    rest.length ≤ cs.length := by
  rw [value?.eq_def] at h
  simp only at h
  split at h
  · obtain ⟨x, hx, h⟩ := of_map_eq_ok h
    cases h
    exact (length_of_string? (of_required_eq_ok hx)).le.trans (Nat.le_succ _)
  · split at h
    · cases h
    · split at h
      · rename_i hskip
        cases h
        exact length_le_of_skipSpace hskip (Nat.le_succ _)
      · obtain ⟨x, hx, h⟩ := of_map_eq_ok h
        cases h
        exact length_le_of_skipSpace rfl (ih.members hx)
  · split at h
    · cases h
    · split at h
      · rename_i hskip
        cases h
        exact length_le_of_skipSpace hskip (Nat.le_succ _)
      · obtain ⟨x, hx, h⟩ := of_map_eq_ok h
        cases h
        exact length_le_of_skipSpace rfl (ih.elements hx)
  · exact length_of_literal? (of_required_eq_ok h)

theorem Shortens.members_succ {fuel room : Nat} {cs rest : List Char}
    {ms : List (List Nat × Value)} (ih : Shortens fuel)
    (h : members? (fuel + 1) room cs = .ok (ms, rest)) : rest.length ≤ cs.length := by
  rw [members?.eq_def] at h
  simp only at h
  split at h
  · obtain ⟨name, hname, h⟩ := of_bind_eq_ok h
    have hstring := length_of_string? (of_required_eq_ok hname)
    have hskip := length_skipSpace_le name.2
    split at h
    · rename_i afterColon hcolon
      rw [hcolon, List.length_cons] at hskip
      obtain ⟨v, hv, h⟩ := of_bind_eq_ok h
      have hblank := length_skipSpace_le afterColon
      have hvalue := ih.value hv
      have hskip' := length_skipSpace_le v.2
      rw [List.length_cons]
      split at h
      · rename_i hbrace
        cases h
        rw [hbrace, List.length_cons] at hskip'
        omega
      · rename_i afterComma hcomma
        rw [hcomma, List.length_cons] at hskip'
        have hblank' := length_skipSpace_le afterComma
        obtain ⟨x, hx, h⟩ := of_map_eq_ok h
        cases h
        have hrest := ih.members hx
        omega
      · cases h
    · cases h
  · cases h

theorem Shortens.elements_succ {fuel room : Nat} {cs rest : List Char} {xs : List Value}
    (ih : Shortens fuel) (h : elements? (fuel + 1) room cs = .ok (xs, rest)) :
    rest.length ≤ cs.length := by
  rw [elements?] at h
  obtain ⟨v, hv, h⟩ := of_bind_eq_ok h
  have hvalue := ih.value hv
  have hskip := length_skipSpace_le v.2
  split at h
  · rename_i hbracket
    cases h
    rw [hbracket, List.length_cons] at hskip
    omega
  · rename_i afterComma hcomma
    rw [hcomma, List.length_cons] at hskip
    have hblank := length_skipSpace_le afterComma
    obtain ⟨x, hx, h⟩ := of_map_eq_ok h
    cases h
    have hrest := ih.elements hx
    omega
  · cases h

theorem shortens (fuel : Nat) : Shortens fuel := by
  induction fuel with
  | zero => exact ⟨nofun, nofun, nofun⟩
  | succ fuel ih => exact ⟨ih.value_succ, ih.members_succ, ih.elements_succ⟩

/-! ### More fuel makes no difference -/

/-- So much fuel is as good as one unit more, where the text is short enough. -/
structure Enough (fuel : Nat) : Prop where
  value : ∀ {room cs}, 2 * cs.length + 1 ≤ fuel →
    value? (fuel + 1) room cs = value? fuel room cs
  members : ∀ {room cs}, 2 * cs.length + 2 ≤ fuel →
    members? (fuel + 1) room cs = members? fuel room cs
  elements : ∀ {room cs}, 2 * cs.length + 2 ≤ fuel →
    elements? (fuel + 1) room cs = elements? fuel room cs

theorem Enough.value_succ {fuel room : Nat} {cs : List Char} (ih : Enough fuel)
    (h : 2 * cs.length + 1 ≤ fuel + 1) :
    value? (fuel + 2) room cs = value? (fuel + 1) room cs := by
  rw [value?.eq_def, value?.eq_def (fuel + 1)]
  simp only
  split
  · rfl
  · rename_i cs
    have hskip := length_skipSpace_le cs
    rw [List.length_cons] at h
    cases room with
    | zero => rfl
    | succ room =>
      simp only
      split
      · rfl
      · rw [ih.members (by omega)]
  · rename_i cs
    have hskip := length_skipSpace_le cs
    rw [List.length_cons] at h
    cases room with
    | zero => rfl
    | succ room =>
      simp only
      split
      · rfl
      · rw [ih.elements (by omega)]
  · rfl

theorem Enough.members_succ {fuel room : Nat} {cs : List Char} (ih : Enough fuel)
    (h : 2 * cs.length + 2 ≤ fuel + 1) :
    members? (fuel + 2) room cs = members? (fuel + 1) room cs := by
  rw [members?.eq_def, members?.eq_def (fuel + 1)]
  simp only
  split
  · rename_i cs
    rw [List.length_cons] at h
    refine bind_congr_ok fun name hname => ?_
    have hstring := length_of_string? (of_required_eq_ok hname)
    have hskip := length_skipSpace_le name.2
    split
    · rename_i afterColon hcolon
      rw [hcolon, List.length_cons] at hskip
      have hblank := length_skipSpace_le afterColon
      rw [ih.value (by omega)]
      refine bind_congr_ok fun v hv => ?_
      have hvalue := (shortens fuel).value hv
      have hskip' := length_skipSpace_le v.2
      split
      · rfl
      · rename_i afterComma hcomma
        rw [hcomma, List.length_cons] at hskip'
        have hblank' := length_skipSpace_le afterComma
        rw [ih.members (by omega)]
      · rfl
    · rfl
  · rfl

theorem Enough.elements_succ {fuel room : Nat} {cs : List Char} (ih : Enough fuel)
    (h : 2 * cs.length + 2 ≤ fuel + 1) :
    elements? (fuel + 2) room cs = elements? (fuel + 1) room cs := by
  rw [elements?, elements?, ih.value (by omega)]
  refine bind_congr_ok fun v hv => ?_
  have hvalue := (shortens fuel).value hv
  have hskip := length_skipSpace_le v.2
  split
  · rfl
  · rename_i afterComma hcomma
    rw [hcomma, List.length_cons] at hskip
    have hblank := length_skipSpace_le afterComma
    rw [ih.elements (by omega)]
  · rfl

theorem enough (fuel : Nat) : Enough fuel := by
  induction fuel with
  | zero => exact ⟨by omega, by omega, by omega⟩
  | succ fuel ih => exact ⟨ih.value_succ, ih.members_succ, ih.elements_succ⟩

/-- **The parser does not run out of fuel**: with two units for a character it reads what it
reads with any more of it. -/
theorem value?_of_enough {fuel : Nat} {cs : List Char} (room : Nat)
    (h : 2 * cs.length + 1 ≤ fuel) : value? fuel room cs = value? (2 * cs.length + 1) room cs := by
  induction fuel, h using Nat.le_induction with
  | base => rfl
  | succ fuel hle ih => rw [(enough fuel).value hle, ih]

/-! ## Writing -/

def escapeUnit (u : Nat) : List Char := '\\' :: 'u' :: padded 16 4 u

/-- A character inside a string, in ASCII. -/
def escaped (c : Char) : List Char :=
  if c = '"' then ['\\', '"']
  else if c = '\\' then ['\\', '\\']
  else if c = '\n' then ['\\', 'n']
  else if c = '\r' then ['\\', 'r']
  else if c = '\t' then ['\\', 't']
  else if c = Char.ofNat 12 then ['\\', 'f']
  else if c = Char.ofNat 8 then ['\\', 'b']
  else if 32 ≤ c.toNat ∧ c.toNat < 127 then [c]
  else if c.toNat < 0x10000 then escapeUnit c.toNat
  else
    escapeUnit (0xD800 + (c.toNat - 0x10000) / 0x400) ++
      escapeUnit (0xDC00 + (c.toNat - 0x10000) % 0x400)

/-- A string between its quotes. -/
def quoted (s : List Char) : List Char := '"' :: s.flatMap escaped ++ ['"']

/-- `json.dumps` of an object of strings with the separators `,` and `:`. -/
def dumpsObject (members : List (List Char × List Char)) : List Char :=
  '{' :: ([','].intercalate (members.map fun m => quoted m.1 ++ ':' :: quoted m.2)) ++ ['}']

/-! ## Reading what was written -/

/-- It stands for itself in a string. -/
def Plain (c : Char) : Prop := 32 ≤ c.toNat ∧ c.toNat < 127 ∧ c ≠ '"' ∧ c ≠ '\\'

instance (c : Char) : Decidable (Plain c) :=
  inferInstanceAs (Decidable (_ ∧ _ ∧ _ ∧ _))

theorem toNat_ofNat_control : ∀ k < 32, (Char.ofNat k).toNat = k := by decide

theorem escaped_of_plain {c : Char} (h : Plain c) : escaped c = [c] := by
  obtain ⟨hlow, hhigh, hquote, hslash⟩ := h
  have hne : ∀ k < 32, c ≠ Char.ofNat k := by
    rintro k hk rfl
    have hval := toNat_ofNat_control k hk
    omega
  rw [escaped, if_neg hquote, if_neg hslash, if_neg (hne 10 (by omega)), if_neg (hne 13 (by omega)),
    if_neg (hne 9 (by omega)), if_neg (hne 12 (by omega)), if_neg (hne 8 (by omega)),
    if_pos ⟨hlow, hhigh⟩]

theorem quoted_of_plain {s : List Char} (h : ∀ c ∈ s, Plain c) : quoted s = '"' :: s ++ ['"'] := by
  have hs : s.flatMap escaped = s := by
    induction s with
    | nil => rfl
    | cons c s ih =>
      rw [List.flatMap_cons, escaped_of_plain (h c (List.mem_cons_self ..)),
        ih fun d hd => h d (List.mem_cons_of_mem _ hd)]
      rfl
  rw [quoted, hs]

theorem pieces?_of_plain {s : List Char} (h : ∀ c ∈ s, Plain c) (rest : List Char) :
    pieces? (s ++ '"' :: rest) = some (s.map .char, rest) := by
  induction s with
  | nil =>
    rw [List.nil_append, pieces?.eq_def]
    rfl
  | cons c s ih =>
    obtain ⟨hlow, -, hquote, hslash⟩ := h c (List.mem_cons_self ..)
    rw [List.cons_append, pieces?.eq_def]
    simp only [if_neg hquote, if_neg hslash, if_neg (Nat.not_lt.2 hlow),
      ih fun d hd => h d (List.mem_cons_of_mem _ hd)]
    rfl

theorem joined_chars (s : List Char) : joined (s.map .char) = s.map Char.toNat := by
  induction s with
  | nil => simp [joined]
  | cons c s ih => rw [List.map_cons, joined, ih, List.map_cons]

theorem string?_of_plain {s : List Char} (h : ∀ c ∈ s, Plain c) (rest : List Char) :
    string? (s ++ '"' :: rest) = some (s.map Char.toNat, rest) := by
  rw [string?, pieces?_of_plain h, Option.map_some, joined_chars]

/-- **Reading undoes writing**, for an object with two plain members. -/
theorem loads_dumpsPair (nesting : Nat) {k v l w : List Char} (hk : ∀ c ∈ k, Plain c)
    (hv : ∀ c ∈ v, Plain c) (hl : ∀ c ∈ l, Plain c) (hw : ∀ c ∈ w, Plain c) :
    loads nesting (dumpsObject [(k, v), (l, w)]) =
      .ok (.object [(k.map Char.toNat, .string (v.map Char.toNat)),
        (l.map Char.toNat, .string (w.map Char.toNat))]) := by
  have htext : dumpsObject [(k, v), (l, w)] = '{' :: '"' :: (k ++ '"' :: ':' :: '"' :: (v ++
      '"' :: ',' :: '"' :: (l ++ '"' :: ':' :: '"' :: (w ++ '"' :: ['}'])))) := by
    simp [dumpsObject, List.intercalate, quoted_of_plain hk, quoted_of_plain hv,
      quoted_of_plain hl, quoted_of_plain hw]
  have hlen : 4 ≤ 2 * (dumpsObject [(k, v), (l, w)]).length + 1 := by
    rw [htext]
    simp only [List.length_cons, List.length_append]
    omega
  obtain ⟨fuel, hfuel⟩ := Nat.exists_eq_add_of_le' hlen
  rw [loads, hfuel, htext]
  simp [skipSpace, isSpace, value?, members?, required, Except.map, Except.bind,
    string?_of_plain hk, string?_of_plain hv, string?_of_plain hl, string?_of_plain hw]

end Text.Json
