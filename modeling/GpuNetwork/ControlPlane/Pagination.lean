import Mathlib.Data.Bool.AllAny
import GpuNetwork.ControlPlane.Model
import GpuNetwork.Text.Base64
import GpuNetwork.Text.DateTime
import GpuNetwork.Text.Json

/-!
# Cursors

`app/core/pagination`: the text a client gets to ask for the next page, which names the
last row of the page before by its time and its identifier.

* `uuidText`, `uuid?` — `str(uuid)` and `UUID(text)`.
* `encodeCursor`, `decodeCursor`; `decodeCursor_encodeCursor` — a cursor comes back as it
  went out; `encodeCursor_injective`.
-/

namespace GpuNetwork

open Text

/-! ## Identifiers -/

/-- `str(uuid)`. -/
def uuidText (id : Uuid) : Str :=
  let hex := padded 16 32 id
  hex.take 8 ++ '-' :: ((hex.drop 8).take 4 ++ '-' :: ((hex.drop 12).take 4 ++
    '-' :: ((hex.drop 16).take 4 ++ '-' :: hex.drop 20)))

/-- `text.replace(part, "")`, from behind `skip` characters. -/
def removed (part : Str) : Nat → Str → Str
  | _, [] => []
  | skip + 1, _ :: cs => removed part skip cs
  | 0, c :: cs =>
    if part.isPrefixOf (c :: cs) then removed part (part.length - 1) cs
    else c :: removed part 0 cs

def isBrace (c : Char) : Bool := c = '{' || c = '}'

/-- `text.strip("\x7b\x7d")`. -/
def stripBraces (cs : Str) : Str := (cs.dropWhile isBrace).rdropWhile isBrace

/-- Digits of a hexadecimal number with single underscores between them. -/
def underscored : Str → Option Str
  | [] => none
  | [c] => if c = '_' then none else some [c]
  | c :: '_' :: cs => if c = '_' then none else (underscored cs).map (c :: ·)
  | c :: cs => (underscored cs).map (c :: ·)

def dropPlus : Str → Str
  | '+' :: cs => cs
  | cs => cs

/-- The marker of a hexadecimal number, which an underscore may follow. -/
def dropHexMarker : Str → Str
  | '0' :: x :: '_' :: cs => if x = 'x' ∨ x = 'X' then cs else '0' :: x :: '_' :: cs
  | '0' :: x :: cs => if x = 'x' ∨ x = 'X' then cs else '0' :: x :: cs
  | cs => cs

/-- The decimal zeros of Unicode; nine more digits follow each of them. -/
def decimalZeros : List Nat :=
  [0x30, 0x660, 0x6F0, 0x7C0, 0x966, 0x9E6, 0xA66, 0xAE6, 0xB66, 0xBE6, 0xC66, 0xCE6, 0xD66,
    0xDE6, 0xE50, 0xED0, 0xF20, 0x1040, 0x1090, 0x17E0, 0x1810, 0x1946, 0x19D0, 0x1A80, 0x1A90,
    0x1B50, 0x1BB0, 0x1C40, 0x1C50, 0xA620, 0xA8D0, 0xA900, 0xA9D0, 0xA9F0, 0xAA50, 0xABF0,
    0xFF10, 0x104A0, 0x10D30, 0x11066, 0x110F0, 0x11136, 0x111D0, 0x112F0, 0x11450, 0x114D0,
    0x11650, 0x116C0, 0x11730, 0x118E0, 0x11950, 0x11C50, 0x11D50, 0x11DA0, 0x11F50, 0x16A60,
    0x16AC0, 0x16B50, 0x1D7CE, 0x1D7D8, 0x1D7E2, 0x1D7EC, 0x1D7F6, 0x1E140, 0x1E2F0, 0x1E4F0,
    0x1E950, 0x1FBF0]

/-- The white space of Unicode outside ASCII. -/
def wideSpaces : List Nat :=
  [0x85, 0xA0, 0x1680, 0x2000, 0x2001, 0x2002, 0x2003, 0x2004, 0x2005, 0x2006, 0x2007, 0x2008,
    0x2009, 0x200A, 0x2028, 0x2029, 0x202F, 0x205F, 0x3000]

/-- A decimal digit and white space are read as those of ASCII. -/
def asciiChar (c : Char) : Char :=
  if c.toNat < 127 then c
  else if c.toNat ∈ wideSpaces then ' '
  else
    match decimalZeros.find? fun z => decide (z ≤ c.toNat) && decide (c.toNat < z + 10) with
    | some z => Nat.digitChar (c.toNat - z)
    | none => '?'

/-- The white space of ASCII. -/
def isBlank (c : Char) : Bool := c = ' ' || (decide (9 ≤ c.toNat) && decide (c.toNat ≤ 13))

/-- `int(text, 16)` of a text without a minus. -/
def hexInt? (cs : Str) : Option Nat :=
  let trimmed := ((cs.map asciiChar).dropWhile isBlank).rdropWhile isBlank
  (underscored (dropHexMarker (dropPlus trimmed))).bind (digits? 16)

/-- `UUID(text)`. -/
def uuid? (text : Str) : Option Uuid :=
  let hex := (stripBraces (removed "uuid:".toList 0 (removed "urn:".toList 0 text))).filter
    (· ≠ '-')
  if hex.length = 32 then hexInt? hex else none

/-! ## Cursors -/

/-- What a cursor names. -/
abbrev Cursor := DateTime × Uuid

/-- Why a cursor is not read. -/
inductive CursorError where
  /-- `InvalidCursorError`. -/
  | invalidCursor
  /-- `UUID(x)` of a value that is neither null nor a string, which is not caught. -/
  | attributeError
  /-- `json.loads` of a text that nests too deep, which is not caught. -/
  | recursionError
  deriving DecidableEq

/-- `text.encode("utf-8")`. -/
def utf8 (text : Str) : List UInt8 := (String.ofList text).toByteArray.data.toList

/-- `raw.decode("utf-8")`. -/
def utf8? (raw : List UInt8) : Option Str :=
  (ByteArray.mk raw.toArray).utf8Decode?.map Array.toList

/-- `encode_cursor`. -/
def encodeCursor (createdAt : DateTime) (rowId : Uuid) : Str :=
  let payload := Json.dumpsObject
    [("ts".toList, isoformat createdAt), ("id".toList, uuidText rowId)]
  Base64.unpadded (Base64.encode (utf8 payload))

/-- `datetime.fromisoformat(payload["ts"])`. -/
def cursorTime? (payload : Json.Value) : Option DateTime :=
  match payload.field? "ts".toList with
  | some (.string ts) => fromisoformat ts
  | _ => none

/-- `UUID(text)` of a text by its code points.  Half a pair of surrogates becomes a NUL, which is
no part of an identifier either. -/
def uuidOf? (codes : List Nat) : Option Uuid := uuid? (codes.map Char.ofNat)

/-- `UUID(payload["id"])`. -/
def cursorId (payload : Json.Value) : Except CursorError Uuid :=
  match payload.field? "id".toList with
  | some (.string id) => (uuidOf? id).elim (.error .invalidCursor) .ok
  | some .null => .error .invalidCursor
  | some _ => .error .attributeError
  | none => .error .invalidCursor

/-- The value in the text of a cursor. -/
def cursorPayload (nesting : Nat) (cursor : Str) : Except Json.Fault Json.Value :=
  let padded := Base64.repadded cursor
  if padded.all (·.toNat < 128) then
    (Json.required ((Base64.decode padded).bind utf8?)).bind (Json.loads nesting)
  else .error .malformed

/-- `decode_cursor`. -/
def decodeCursor (nesting : Nat) (cursor : Str) : Except CursorError Cursor :=
  match cursorPayload nesting cursor with
  | .error .malformed => .error .invalidCursor
  | .error .tooDeep => .error .recursionError
  | .ok payload =>
    match cursorTime? payload with
    | none => .error .invalidCursor
    | some ts => (cursorId payload).map fun id => (ts, id)

/-! ## A cursor comes back as it went out -/

theorem utf8?_utf8 (text : Str) : utf8? (utf8 text) = some text := by
  have hbytes : ByteArray.mk (utf8 text).toArray = text.utf8Encode := by simp [utf8]
  rw [utf8?, hbytes, List.utf8Decode?_utf8Encode, Option.map_some]

/-- The characters of an identifier. -/
def uuidAlphabet : Str := "0123456789abcdef-".toList

theorem mem_uuidAlphabet_of_padded {w n : Nat} {c : Char} (h : c ∈ padded 16 w n) :
    c ∈ uuidAlphabet ∧ c ≠ '-' := by
  obtain ⟨d, hd, he⟩ := mem_padded (by omega) h
  have hall : ∀ d < 16, Nat.digitChar d ∈ uuidAlphabet ∧ Nat.digitChar d ≠ '-' := by decide
  rw [he]
  exact hall d hd

theorem mem_uuidText {id : Uuid} {c : Char} (h : c ∈ uuidText id) : c ∈ uuidAlphabet := by
  have hdigit : ∀ {cs : Str}, (∀ x ∈ cs, x ∈ padded 16 32 id) → c ∈ cs → c ∈ uuidAlphabet :=
    fun hcs hc => (mem_uuidAlphabet_of_padded (hcs c hc)).1
  simp only [uuidText, List.mem_append, List.mem_cons] at h
  rcases h with h | rfl | h | rfl | h | rfl | h | rfl | h
  · exact hdigit (fun x => List.mem_of_mem_take) h
  · decide
  · exact hdigit (fun x hx => List.mem_of_mem_drop (List.mem_of_mem_take hx)) h
  · decide
  · exact hdigit (fun x hx => List.mem_of_mem_drop (List.mem_of_mem_take hx)) h
  · decide
  · exact hdigit (fun x hx => List.mem_of_mem_drop (List.mem_of_mem_take hx)) h
  · decide
  · exact hdigit (fun x => List.mem_of_mem_drop) h

/-- Without its dashes it is the number in hexadecimal. -/
theorem filter_uuidText (id : Uuid) : (uuidText id).filter (· ≠ '-') = padded 16 32 id := by
  have hkeep : ∀ {cs : Str}, (∀ x ∈ cs, x ∈ padded 16 32 id) → cs.filter (· ≠ '-') = cs :=
    fun hcs => List.filter_eq_self.2 fun x hx =>
      decide_eq_true (mem_uuidAlphabet_of_padded (hcs x hx)).2
  have hsplit : ∀ (l : Str), l.take 8 ++ ((l.drop 8).take 4 ++ ((l.drop 12).take 4 ++
      ((l.drop 16).take 4 ++ l.drop 20))) = l := by
    intro l
    have h₁ := List.take_append_drop 4 (l.drop 16)
    have h₂ := List.take_append_drop 4 (l.drop 12)
    have h₃ := List.take_append_drop 4 (l.drop 8)
    rw [List.drop_drop] at h₁ h₂ h₃
    rw [h₁, h₂, h₃, List.take_append_drop]
  simp only [uuidText, List.filter_append, List.filter_cons]
  simp only [ne_eq, not_true_eq_false, decide_false, Bool.false_eq_true, if_false]
  rw [hkeep fun x => List.mem_of_mem_take, hkeep fun x => List.mem_of_mem_drop,
    hkeep fun x hx => List.mem_of_mem_drop (List.mem_of_mem_take hx),
    hkeep fun x hx => List.mem_of_mem_drop (List.mem_of_mem_take hx),
    hkeep fun x hx => List.mem_of_mem_drop (List.mem_of_mem_take hx), hsplit]

theorem removed_of_not_mem {part : Str} {p : Char} (hp : part.head? = some p) {cs : Str}
    (h : p ∉ cs) : removed part 0 cs = cs := by
  induction cs with
  | nil => rfl
  | cons c cs ih =>
    obtain ⟨hc, hcs⟩ := not_or.1 (fun he => h (List.mem_cons.2 he))
    cases part with
    | nil => cases hp
    | cons q part =>
      rw [List.head?_cons, Option.some.injEq] at hp
      subst hp
      rw [removed, if_neg, ih hcs]
      simp [hc]

/-- Nothing is stripped off a text without such characters. -/
theorem strip_eq_self {p : Char → Bool} {cs : Str} (h : ∀ c ∈ cs, p c = false) :
    (cs.dropWhile p).rdropWhile p = cs := by
  have hdrop : cs.dropWhile p = cs := by
    cases cs with
    | nil => rfl
    | cons c cs => exact List.dropWhile_cons_of_neg (by simp [h c (List.mem_cons_self ..)])
  rw [hdrop, List.rdropWhile_eq_self_iff]
  intro hne hlast
  rw [h _ (List.getLast_mem hne)] at hlast
  cases hlast

theorem underscored_eq_self {cs : Str} (hne : cs ≠ []) (h : '_' ∉ cs) :
    underscored cs = some cs := by
  fun_induction underscored cs with
  | case1 => exact absurd rfl hne
  | case2 => simp at h
  | case3 c hc => rfl
  | case4 => simp at h
  | case5 c cs hc ih => simp at h
  | case6 c cs hnil hcs ih =>
    have hrest : cs ≠ [] := by
      rintro rfl
      exact hnil rfl
    rw [ih hrest fun he => h (List.mem_cons_of_mem _ he)]
    rfl

theorem dropPlus_eq_self {cs : Str} (h : '+' ∉ cs) : dropPlus cs = cs := by
  unfold dropPlus
  split
  · simp at h
  · rfl

theorem dropHexMarker_eq_self {cs : Str} (h : 'x' ∉ cs) (h' : 'X' ∉ cs) :
    dropHexMarker cs = cs := by
  have hne : ∀ x ∈ cs, ¬ (x = 'x' ∨ x = 'X') := by
    rintro x hx (rfl | rfl)
    · exact h hx
    · exact h' hx
  unfold dropHexMarker
  split
  · exact if_neg (hne _ (by simp))
  · exact if_neg (hne _ (by simp))
  · rfl

theorem hexInt?_padded {id : Uuid} (h : id < 2 ^ 128) : hexInt? (padded 16 32 id) = some id := by
  have hmem : ∀ c ∈ padded 16 32 id, c ∈ uuidAlphabet := fun c hc =>
    (mem_uuidAlphabet_of_padded hc).1
  have hascii : (padded 16 32 id).map asciiChar = padded 16 32 id := by
    refine (List.map_congr_left fun c hc => ?_).trans (List.map_id _)
    exact (List.all_iff_forall_prop.1 (by decide) : ∀ c ∈ uuidAlphabet, asciiChar c = c) c
      (hmem c hc)
  have hspace : ∀ c ∈ padded 16 32 id, isBlank c = false := fun c hc =>
    (List.all_iff_forall_prop.1 (by decide) : ∀ c ∈ uuidAlphabet, isBlank c = false) c
      (hmem c hc)
  have hout : ∀ x ∉ uuidAlphabet, x ∉ padded 16 32 id := fun x hx hc => hx (hmem x hc)
  have hnil : padded 16 32 id ≠ [] := by
    intro he
    have hlen := length_padded 16 32 id
    rw [he] at hlen
    cases hlen
  rw [hexInt?, hascii, strip_eq_self hspace, dropPlus_eq_self (hout '+' (by decide)),
    dropHexMarker_eq_self (hout 'x' (by decide)) (hout 'X' (by decide)),
    underscored_eq_self hnil (hout '_' (by decide)), Option.bind_some,
    digits?_padded (by omega) le_rfl 32 id (by omega)]

/-- **An identifier comes back from its text.** -/
theorem uuid?_uuidText {id : Uuid} (h : id < 2 ^ 128) : uuid? (uuidText id) = some id := by
  have hout : ∀ x ∉ uuidAlphabet, x ∉ uuidText id := fun x hx hc => hx (mem_uuidText hc)
  have hbrace : ∀ c ∈ uuidText id, isBrace c = false := fun c hc =>
    (List.all_iff_forall_prop.1 (by decide) : ∀ c ∈ uuidAlphabet, isBrace c = false) c
      (mem_uuidText hc)
  have hurn : removed "urn:".toList 0 (uuidText id) = uuidText id :=
    removed_of_not_mem (p := 'u') rfl (hout 'u' (by decide))
  have huuid : removed "uuid:".toList 0 (uuidText id) = uuidText id :=
    removed_of_not_mem (p := 'u') rfl (hout 'u' (by decide))
  rw [uuid?, hurn, huuid, stripBraces, strip_eq_self hbrace, filter_uuidText]
  simp only [length_padded, if_true]
  exact hexInt?_padded h

theorem uuidOf?_uuidText {id : Uuid} (h : id < 2 ^ 128) :
    uuidOf? ((uuidText id).map Char.toNat) = some id := by
  have hmap : ((uuidText id).map Char.toNat).map Char.ofNat = uuidText id := by
    rw [List.map_map]
    exact (List.map_congr_left fun c _ => Char.ofNat_toNat c).trans (List.map_id _)
  rw [uuidOf?, hmap, uuid?_uuidText h]

theorem uuidText_injective {id id' : Uuid} (h : id < 2 ^ 128) (h' : id' < 2 ^ 128)
    (heq : uuidText id = uuidText id') : id = id' := by
  have hread := uuid?_uuidText h
  rw [heq, uuid?_uuidText h', Option.some.injEq] at hread
  exact hread.symm

/-- What is in a cursor that is handed out. -/
def handedOut (ts : DateTime) (id : Uuid) : Json.Value :=
  .object [("ts".toList.map Char.toNat, .string ((isoformat ts).map Char.toNat)),
    ("id".toList.map Char.toNat, .string ((uuidText id).map Char.toNat))]

theorem cursorPayload_encodeCursor (nesting : Nat) (ts : DateTime) (id : Uuid) :
    cursorPayload nesting (encodeCursor ts id) = .ok (handedOut ts id) := by
  have hts : ∀ c ∈ isoformat ts, Json.Plain c := fun c hc =>
    (List.all_iff_forall_prop.1 (by decide) : ∀ c ∈ isoAlphabet, Json.Plain c) c (mem_isoformat hc)
  have hidp : ∀ c ∈ uuidText id, Json.Plain c := fun c hc =>
    (List.all_iff_forall_prop.1 (by decide) : ∀ c ∈ uuidAlphabet, Json.Plain c) c (mem_uuidText hc)
  have hloads := Json.loads_dumpsPair nesting (k := "ts".toList) (l := "id".toList)
    (List.all_iff_forall_prop.1 (by decide)) hts (List.all_iff_forall_prop.1 (by decide)) hidp
  have hascii : ∀ bs, (Base64.encode bs).all (·.toNat < 128) = true := by
    intro bs
    refine List.all_eq_true.2 fun c hc => ?_
    rcases Base64.mem_encode hc with hc | rfl
    · exact (List.all_iff_forall_prop.1 (by decide +kernel) :
        ∀ c ∈ Base64.alphabet, decide (c.toNat < 128) = true) c hc
    · decide
  simp only [cursorPayload, encodeCursor, Base64.repadded_unpadded, hascii, if_true,
    Base64.decode_encode, Option.bind_some, utf8?_utf8, Json.required]
  exact hloads

/-- **A cursor comes back as it went out**: a time on a clock that is ahead of UTC by less
than a day, in the years of the calendar, and an identifier.  What gets lost is an offset of
less than a second. -/
theorem decodeCursor_encodeCursor (nesting : Nat) {ts : DateTime} {o : Int} {id : Uuid}
    (hw : ts.wall < maxOrdinal * dayMicros) (ho : ts.utcOffset = some o)
    (hoff : o.natAbs < dayMicros) (hid : id < 2 ^ 128) :
    decodeCursor nesting (encodeCursor ts id) =
      .ok (⟨ts.wall, some (if o.natAbs < secondMicros then 0 else o)⟩, id) := by
  have htime : cursorTime? (handedOut ts id) =
      some ⟨ts.wall, some (if o.natAbs < secondMicros then 0 else o)⟩ := by
    have hfield : Json.Value.field? "ts".toList (handedOut ts id) =
        some (.string ((isoformat ts).map Char.toNat)) := rfl
    rw [cursorTime?, hfield]
    exact fromisoformat_isoformat hw ho hoff
  have hident : cursorId (handedOut ts id) = .ok id := by
    have hfield : Json.Value.field? "id".toList (handedOut ts id) =
        some (.string ((uuidText id).map Char.toNat)) := rfl
    rw [cursorId, hfield]
    simp only [uuidOf?_uuidText hid]
    rfl
  rw [decodeCursor, cursorPayload_encodeCursor]
  simp only [htime, hident]
  rfl

/-- **Only equal values have equal cursors**, whether or not the offset comes back. -/
theorem encodeCursor_injective {ts ts' : DateTime} {o o' : Int} {id id' : Uuid}
    (hw : ts.wall < maxOrdinal * dayMicros) (hw' : ts'.wall < maxOrdinal * dayMicros)
    (ho : ts.utcOffset = some o) (ho' : ts'.utcOffset = some o') (hoff : o.natAbs < dayMicros)
    (hoff' : o'.natAbs < dayMicros) (hid : id < 2 ^ 128) (hid' : id' < 2 ^ 128)
    (h : encodeCursor ts id = encodeCursor ts' id') :
    ts.wall = ts'.wall ∧ o = o' ∧ id = id' := by
  have hpayload := cursorPayload_encodeCursor 0 ts id
  rw [h, cursorPayload_encodeCursor 0 ts' id', Except.ok.injEq] at hpayload
  simp only [handedOut, Json.Value.object.injEq, List.cons.injEq, Prod.mk.injEq,
    Json.Value.string.injEq, true_and, and_true] at hpayload
  have hinj : Function.Injective Char.toNat := fun c d hcd => by
    rw [← Char.ofNat_toNat c, hcd, Char.ofNat_toNat]
  have hiso := List.map_injective_iff.2 hinj hpayload.1
  have htext := List.map_injective_iff.2 hinj hpayload.2
  obtain ⟨hwall, hoffset⟩ := isoformat_injective hw' hw ho' ho hoff' hoff hiso
  exact ⟨hwall.symm, hoffset.symm, (uuidText_injective hid' hid htext).symm⟩

end GpuNetwork
