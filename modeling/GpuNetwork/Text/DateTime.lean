import Mathlib.Data.Bool.AllAny
import GpuNetwork.Text.Numeral
import GpuNetwork.Text.Utf8

/-!
# Dates and times as text

The Gregorian calendar as Python's `datetime` counts it, and the text of a point in time
in ISO 8601.

* `ordinal`, `calendar` — the day of a date, and the date of a day; `ordinal_calendar`.
* `DateTime`, `isoformat`, `fromisoformat`.
* `fromisoformat_isoformat` — reading undoes writing, for a time in UTC.
-/

namespace Text

/-! ## The calendar -/

def isLeap (year : Nat) : Bool := year % 4 = 0 && (year % 100 != 0 || year % 400 = 0)

/-- The days of the years before one. -/
def daysBeforeYear (year : Nat) : Nat :=
  (year - 1) * 365 + (year - 1) / 4 - (year - 1) / 100 + (year - 1) / 400

/-- The days of a year before one of its months. -/
def daysBeforeMonth (leap : Bool) (month : Nat) : Nat :=
  [0, 0, 31, 59, 90, 120, 151, 181, 212, 243, 273, 304, 334].getD month 0 +
    if leap && decide (2 < month) then 1 else 0

def daysInMonth (leap : Bool) (month : Nat) : Nat :=
  [0, 31, if leap then 29 else 28, 31, 30, 31, 30, 31, 31, 30, 31, 30, 31].getD month 0

/-- `_ymd2ord`: the first of January of the year 1 is day 1. -/
def ordinal (year month day : Nat) : Nat :=
  daysBeforeYear year + daysBeforeMonth (isLeap year) month + day

/-- The month and the day of a day of the year, which counts from zero. -/
def monthDay (leap : Bool) (n : Nat) : Nat × Nat :=
  let month := (n + 50) / 32
  if daysBeforeMonth leap month ≤ n then (month, n - daysBeforeMonth leap month + 1)
  else (month - 1, n - daysBeforeMonth leap (month - 1) + 1)

/-- `_ord2ymd`: cycles of 400, 100, 4 and one year. -/
def calendar (ord : Nat) : Nat × Nat × Nat :=
  let n400 := (ord - 1) / 146097
  let n100 := (ord - 1) % 146097 / 36524
  let n4 := (ord - 1) % 146097 % 36524 / 1461
  let n1 := (ord - 1) % 146097 % 36524 % 1461 / 365
  let year := n400 * 400 + n100 * 100 + n4 * 4 + n1 + 1
  if n1 = 4 ∨ n100 = 4 then (year - 1, 12, 31)
  else (year, monthDay (isLeap year) ((ord - 1) % 146097 % 36524 % 1461 % 365))

/-- The last day of the year 9999. -/
def maxOrdinal : Nat := 3652059

/-- It is a date of the calendar. -/
def isDate (year month day : Nat) : Bool :=
  decide (1 ≤ year) && decide (year ≤ 9999) && decide (1 ≤ month) && decide (month ≤ 12) &&
    decide (1 ≤ day) && decide (day ≤ daysInMonth (isLeap year) month)

theorem monthDay_spec : ∀ leap : Bool, ∀ n < 365,
    daysBeforeMonth leap (monthDay leap n).1 + (monthDay leap n).2 = n + 1 ∧
      1 ≤ (monthDay leap n).1 ∧ (monthDay leap n).1 ≤ 12 ∧ 1 ≤ (monthDay leap n).2 ∧
      (monthDay leap n).2 ≤ daysInMonth leap (monthDay leap n).1 := by
  decide +kernel

/-- The year of a day, by the cycles it has behind it. -/
theorem daysBeforeYear_of_cycles {a b c d : Nat} (hb : b ≤ 3) (hc : c ≤ 24) (hd : d ≤ 3) :
    daysBeforeYear (a * 400 + b * 100 + c * 4 + d + 1) =
      a * 146097 + b * 36524 + c * 1461 + d * 365 := by
  unfold daysBeforeYear
  omega

/-- The day before the new year, at the end of a cycle of four years that is no century. -/
theorem ordinal_lastDay {a b c : Nat} (hb : b ≤ 3) (hc : c ≤ 23) :
    ordinal (a * 400 + b * 100 + c * 4 + 4) 12 31 = a * 146097 + b * 36524 + c * 1461 + 1461 := by
  have hleap : isLeap (a * 400 + b * 100 + c * 4 + 4) = true := by
    simp only [isLeap, Bool.and_eq_true, Bool.or_eq_true, decide_eq_true_eq, bne_iff_ne]
    omega
  have hdays := daysBeforeYear_of_cycles (a := a) (d := 3) hb (by omega : c ≤ 24) le_rfl
  rw [ordinal, hleap, hdays]
  simp [daysBeforeMonth]

/-- The day before the new year, at the end of a cycle of four hundred years. -/
theorem ordinal_lastDay_of_cycle (a : Nat) : ordinal (a * 400 + 400) 12 31 = (a + 1) * 146097 := by
  have hleap : isLeap (a * 400 + 400) = true := by
    simp only [isLeap, Bool.and_eq_true, Bool.or_eq_true, decide_eq_true_eq, bne_iff_ne]
    omega
  have hdays := daysBeforeYear_of_cycles (a := a) (b := 3) (c := 24) (d := 3) le_rfl le_rfl le_rfl
  rw [ordinal, hleap, hdays]
  simp [daysBeforeMonth]
  omega

/-- **The date of a day is the date that has that day.** -/
theorem ordinal_calendar {ord : Nat} (h : 1 ≤ ord) :
    ordinal (calendar ord).1 (calendar ord).2.1 (calendar ord).2.2 = ord := by
  unfold calendar
  generalize hn : ord - 1 = n
  have hord : ord = n + 1 := by omega
  simp only []
  split
  · rename_i hlast
    rcases hlast with hlast | hlast
    · have hyear : n / 146097 * 400 + n % 146097 / 36524 * 100 + n % 146097 % 36524 / 1461 * 4 +
          n % 146097 % 36524 % 1461 / 365 + 1 - 1 = n / 146097 * 400 + n % 146097 / 36524 * 100 +
          n % 146097 % 36524 / 1461 * 4 + 4 := by omega
      rw [hyear, ordinal_lastDay (by omega) (by omega)]
      omega
    · have hyear : n / 146097 * 400 + n % 146097 / 36524 * 100 + n % 146097 % 36524 / 1461 * 4 +
          n % 146097 % 36524 % 1461 / 365 + 1 - 1 = n / 146097 * 400 + 400 := by omega
      rw [hyear, ordinal_lastDay_of_cycle]
      omega
  · rename_i hlast
    have hr : n % 146097 % 36524 % 1461 % 365 < 365 := Nat.mod_lt _ (by omega)
    have hmonth := (monthDay_spec (isLeap (n / 146097 * 400 + n % 146097 / 36524 * 100 +
      n % 146097 % 36524 / 1461 * 4 + n % 146097 % 36524 % 1461 / 365 + 1)) _ hr).1
    have hyear := daysBeforeYear_of_cycles (a := n / 146097) (b := n % 146097 / 36524)
      (c := n % 146097 % 36524 / 1461) (d := n % 146097 % 36524 % 1461 / 365) (by omega) (by omega)
      (by omega)
    simp only [ordinal, hord, hyear]
    omega

theorem isDate_calendar {ord : Nat} (h : 1 ≤ ord) (hmax : ord ≤ maxOrdinal) :
    isDate (calendar ord).1 (calendar ord).2.1 (calendar ord).2.2 = true := by
  unfold calendar
  generalize hn : ord - 1 = n
  have hlt : n < 3652059 := by unfold maxOrdinal at hmax; omega
  simp only []
  split
  · rename_i hlast
    simp only [isDate, daysInMonth, Bool.and_eq_true, decide_eq_true_eq]
    simp
    omega
  · rename_i hlast
    have hr : n % 146097 % 36524 % 1461 % 365 < 365 := Nat.mod_lt _ (by omega)
    obtain ⟨-, hm, hm', hd, hd'⟩ := monthDay_spec (isLeap (n / 146097 * 400 +
      n % 146097 / 36524 * 100 + n % 146097 % 36524 / 1461 * 4 +
      n % 146097 % 36524 % 1461 / 365 + 1)) _ hr
    simp only [isDate, hm, hm', hd, hd', decide_true, Bool.and_true, Bool.and_eq_true,
      decide_eq_true_eq]
    omega

/-! ## Points in time -/

/-- Microseconds of a day, of an hour, of a minute and of a second. -/
def dayMicros : Nat := 86400000000

def hourMicros : Nat := 3600000000

def minuteMicros : Nat := 60000000

def secondMicros : Nat := 1000000

/-- A `datetime`: what its clock shows, in microseconds since the beginning of the year 1,
and how far the clock is ahead of UTC, when it says so. -/
structure DateTime where
  wall : Nat
  utcOffset : Option Int
  deriving DecidableEq

/-- Midnight of the first of January 1970. -/
def unixEpoch : Nat := 719162 * dayMicros

/-- A number of microseconds since 1970, in UTC. -/
def DateTime.utc (t : Int) : DateTime := ⟨(t + unixEpoch).toNat, some 0⟩

/-- The microseconds since 1970 of a clock that says how far it is ahead. -/
def DateTime.instant? (d : DateTime) : Option Int :=
  d.utcOffset.map fun o => (d.wall : Int) - o - unixEpoch

/-- A `datetime` lies in the years 1 to 9999. -/
def InRange (t : Int) : Prop := 0 ≤ t + unixEpoch ∧ t + unixEpoch < maxOrdinal * dayMicros

instance (t : Int) : Decidable (InRange t) := inferInstanceAs (Decidable (_ ∧ _))

/-! ## Writing -/

def isoDate (ord : Nat) : List Char :=
  padded 10 4 (calendar ord).1 ++ '-' :: (padded 10 2 (calendar ord).2.1 ++
    '-' :: padded 10 2 (calendar ord).2.2)

/-- The fraction of a second is left out when it is zero. -/
def isoFraction (micros : Nat) : List Char :=
  if micros = 0 then [] else '.' :: padded 10 6 micros

/-- A time of the day. -/
def isoTime (micros : Nat) : List Char :=
  padded 10 2 (micros / hourMicros) ++ ':' :: (padded 10 2 (micros / minuteMicros % 60) ++
    ':' :: (padded 10 2 (micros / secondMicros % 60) ++ isoFraction (micros % secondMicros)))

/-- An offset from UTC, with its seconds only when there are any. -/
def isoOffset (offset : Int) : List Char :=
  (if offset < 0 then '-' else '+') :: (padded 10 2 (offset.natAbs / hourMicros) ++
    ':' :: (padded 10 2 (offset.natAbs / minuteMicros % 60) ++
      if offset.natAbs % minuteMicros = 0 then []
      else ':' :: (padded 10 2 (offset.natAbs / secondMicros % 60) ++
        isoFraction (offset.natAbs % secondMicros))))

/-- `datetime.isoformat`. -/
def isoformat (d : DateTime) : List Char :=
  isoDate (d.wall / dayMicros + 1) ++ 'T' :: (isoTime (d.wall % dayMicros) ++
    match d.utcOffset with
    | some o => isoOffset o
    | none => [])

/-- The characters of the text. -/
def isoAlphabet : List Char := "0123456789-T:.+".toList

theorem mem_isoAlphabet_of_padded {w n : Nat} {c : Char} (h : c ∈ padded 10 w n) :
    c ∈ isoAlphabet := by
  obtain ⟨d, hd, he⟩ := mem_padded (by omega) h
  have hall : ∀ d < 10, Nat.digitChar d ∈ isoAlphabet := by decide
  rw [he]
  exact hall d hd

theorem mem_isoFraction {n : Nat} {c : Char} (h : c ∈ isoFraction n) : c ∈ isoAlphabet := by
  unfold isoFraction at h
  split at h
  · simp at h
  · rcases List.mem_cons.1 h with rfl | h
    · decide
    · exact mem_isoAlphabet_of_padded h

theorem mem_isoOffset {o : Int} {c : Char} (h : c ∈ isoOffset o) : c ∈ isoAlphabet := by
  simp only [isoOffset, List.mem_cons, List.mem_append] at h
  rcases h with rfl | h | rfl | h | h
  · split <;> decide
  · exact mem_isoAlphabet_of_padded h
  · decide
  · exact mem_isoAlphabet_of_padded h
  · split at h
    · simp at h
    · simp only [List.mem_cons, List.mem_append] at h
      rcases h with rfl | h | h
      · decide
      · exact mem_isoAlphabet_of_padded h
      · exact mem_isoFraction h

theorem mem_isoformat {d : DateTime} {c : Char} (h : c ∈ isoformat d) : c ∈ isoAlphabet := by
  simp only [isoformat, isoDate, isoTime, List.mem_append, List.mem_cons] at h
  rcases h with (h | rfl | h | rfl | h) | rfl | (h | rfl | h | rfl | h | h) | h
  · exact mem_isoAlphabet_of_padded h
  · decide
  · exact mem_isoAlphabet_of_padded h
  · decide
  · exact mem_isoAlphabet_of_padded h
  · decide
  · exact mem_isoAlphabet_of_padded h
  · decide
  · exact mem_isoAlphabet_of_padded h
  · decide
  · exact mem_isoAlphabet_of_padded h
  · exact mem_isoFraction h
  · split at h
    · exact mem_isoOffset h
    · simp at h

/-! ## Reading -/

/-- A number of so many digits. -/
def number? (w : Nat) (cs : List Char) : Option (Nat × List Char) :=
  if (cs.take w).length = w then (digits? 10 (cs.take w)).map fun n => (n, cs.drop w) else none

/-- The date of a week and a weekday; the first week is the one with the first Thursday. -/
def weekDate? (year week day : Nat) : Option Nat :=
  let first := ordinal year 1 1
  let weekday := (first + 6) % 7
  let longYear := first % 7 = 4 ∨ (first % 7 = 3 ∧ isLeap year)
  if 1 ≤ year ∧ year ≤ 9999 ∧ 1 ≤ week ∧ (week ≤ 52 ∨ (week = 53 ∧ longYear)) ∧
      1 ≤ day ∧ day ≤ 7 then
    some ((if 3 < weekday then first + 7 else first) - weekday + (week - 1) * 7 + (day - 1))
  else none

/-- `_parse_isoformat_date`: the ordinal of a date with dashes at every place or at none. -/
def date? (cs : List Char) : Option Nat :=
  (number? 4 cs).bind fun y =>
    let dash := decide (y.2.head? = some '-')
    let tail := if dash then y.2.drop 1 else y.2
    match tail with
    | 'W' :: cs =>
      (number? 2 cs).bind fun w =>
        match w.2, dash with
        | [], _ => weekDate? y.1 w.1 1
        | '-' :: cs, true => (number? 1 cs).bind fun d => weekDate? y.1 w.1 d.1
        | cs, false => (number? 1 cs).bind fun d => weekDate? y.1 w.1 d.1
        | _, true => none
    | cs =>
      (number? 2 cs).bind fun m =>
        if decide (m.2.head? = some '-') = dash then
          (number? 2 (if dash then m.2.drop 1 else m.2)).bind fun d =>
            if isDate y.1 m.1 d.1 then some (ordinal y.1 m.1 d.1) else none
        else none

/-- A digit of a date or a time. -/
def isDigit (c : Char) : Bool := (digit? 10 c).isSome

/-- The byte at the beginning, and a NUL where the text is over. -/
def peek (cs : List Char) : Char := cs.head?.getD '\x00'

/-- What comes behind the pairs of digits of a time. -/
inductive Behind where
  /-- The last pair ends there, and something follows or not. -/
  | last (more : Bool)
  /-- So many bytes, which are to be a fraction. -/
  | fraction (n : Nat) (cs : List Char)

/-- The loop of `_parse_hh_mm_ss_ff` over so many pairs of digits, in the `n` bytes of the
time; the first pair decides whether colons stand between them. -/
def pairs? : Nat → Option Bool → Nat → List Char → Option (List Nat × Behind)
  | 0, _, n, cs => some ([], .fraction n cs)
  | k + 1, colons, n, cs =>
    (number? 2 cs).bind fun v =>
      let c := peek v.2
      let colon := colons.getD (decide (c = ':'))
      if n ≤ 3 then some ([v.1], .last (decide (c ≠ '\x00')))
      else if colon ∧ c = ':' then
        (pairs? k (some colon) (n - 3) (v.2.drop 1)).map fun x => (v.1 :: x.1, x.2)
      else if c = '.' ∨ c = ',' then some ([v.1], .fraction (n - 3) (v.2.drop 1))
      else if colon then none
      else (pairs? k (some colon) (n - 2) v.2).map fun x => (v.1 :: x.1, x.2)

/-- The microseconds, from at most six digits, and whether something follows the digits. -/
def behind? : Behind → Option (Nat × Bool)
  | .last more => some (0, more)
  | .fraction n cs =>
    (number? (min n 6) cs).map fun x =>
      (x.1 * 10 ^ (6 - min n 6), decide (peek (x.2.dropWhile isDigit) ≠ '\x00'))

/-- Hours, minutes, seconds and microseconds. -/
abbrev Clock := Nat × Nat × Nat × Nat

/-- `_parse_hh_mm_ss_ff` of the first `n` bytes: the time, and whether something follows it. -/
def clock? (n : Nat) (cs : List Char) : Option (Clock × Bool) :=
  (pairs? 3 none n cs).bind fun p =>
    (behind? p.2).map fun f => ((p.1.getD 0 0, p.1.getD 1 0, p.1.getD 2 0, f.1), f.2)

def clockMicros (c : Clock) : Nat :=
  c.1 * hourMicros + c.2.1 * minuteMicros + c.2.2.1 * secondMicros + c.2.2.2

/-- What begins the offset from UTC. -/
def isZone (c : Char) : Bool := c = '+' || c = '-' || c = 'Z'

/-- The offset, in microseconds, as it is written. -/
def zone? : List Char → Option (Option Int)
  | [] => some none
  | 'Z' :: cs => if peek cs = '\x00' then some (some 0) else none
  | sign :: cs =>
    (clock? cs.length cs).bind fun c =>
      if c.2 then none
      else some (some (if sign = '-' then -(clockMicros c.1 : Int) else clockMicros c.1))

/-- `_parse_isoformat_time`.  What follows the time is no fault where an offset follows it. -/
def time? (cs : List Char) : Option (Clock × Option Int) :=
  let zone := cs.dropWhile fun c => !isZone c
  (clock? (cs.length - zone.length) cs).bind fun c =>
    if zone = [] ∧ c.2 then none
    else (zone? zone).map fun z => (c.1, z)

/-- `_find_isoformat_datetime_separator`: where the date ends. -/
def separator (cs : List Char) : Nat :=
  if cs.length = 7 then 7
  else if cs[4]? = some '-' then
    if cs[5]? = some 'W' then
      if cs[8]? = some '-' then if (cs[10]?).any isDigit then 8 else 10
      else 8
    else 10
  else if cs[4]? = some 'W' then
    let last := 7 + ((cs.drop 7).takeWhile isDigit).length
    if last < 9 then last else if last % 2 = 0 then 7 else 8
  else 8

/-- The bytes of the character that begins with this one. -/
def leadWidth (c : Char) : Nat :=
  if c.toNat < 0x80 then 1
  else if c.toNat / 16 = 0xE then 3
  else if c.toNat / 16 = 0xF then 4
  else 2

/-- What the bytes of a text say: a time on a clock, and an offset as it is written. -/
def readIso (cs : List Char) : Option (Nat × Option Int) :=
  (date? (cs.take (separator cs))).bind fun ord =>
    if ord ≤ maxOrdinal then
      match cs.drop (separator cs) with
      | [] => some ((ord - 1) * dayMicros, none)
      | c :: rest =>
        (time? ((c :: rest).drop (leadWidth c))).bind fun t =>
          if t.1.1 < 24 ∧ t.1.2.1 < 60 ∧ t.1.2.2.1 < 60 then
            some ((ord - 1) * dayMicros + clockMicros t.1, t.2)
          else none
    else none

/-- `tzinfo_from_isoformat_results`: an offset of less than a second is none, and one of a day
or more is refused. -/
def offset? (o : Int) : Option Int :=
  if o.natAbs < secondMicros then some 0 else if o.natAbs < dayMicros then some o else none

/-- A code point that is half a pair of surrogates. -/
def isSurrogate (u : Nat) : Bool := decide (0xD800 ≤ u) && decide (u < 0xE000)

/-- `_sanitize_isoformat_str`: half a pair of surrogates may stand behind the date. -/
def sanitized (codes : List Nat) : List Nat :=
  match [7, 8, 10].find? fun i => (codes[i]?).any isSurrogate with
  | some i => codes.set i 'T'.toNat
  | none => codes

/-- The bytes of a text in UTF-8, each as the character of its number. -/
def byteChars (cs : List Char) : List Char := (Utf8.encode cs).map fun b => Char.ofNat b.toNat

/-- `datetime.fromisoformat` of a text by its code points. -/
def fromisoformat (codes : List Nat) : Option DateTime :=
  let clean := sanitized codes
  if codes.length < 7 ∨ clean.any isSurrogate then none
  else
    (readIso (byteChars (clean.map Char.ofNat))).bind fun r =>
      match r.2 with
      | none => some ⟨r.1, none⟩
      | some o => (offset? o).map fun o => ⟨r.1, some o⟩

/-! ## Reading what was written -/

theorem number?_padded {w n : Nat} (hn : n < 10 ^ w) (rest : List Char) :
    number? w (padded 10 w n ++ rest) = some (n, rest) := by
  have hlen := length_padded 10 w n
  rw [number?, List.take_left' hlen, List.drop_left' hlen, if_pos hlen,
    digits?_padded (by omega) (by omega) w n hn]
  rfl

theorem number?_pair {n : Nat} (hn : n < 100) (rest : List Char) :
    number? 2 (padded 10 2 n ++ rest) = some (n, rest) :=
  number?_padded (by omega) rest

/-! ### One step of the loop over the pairs -/

section Pairs

variable {k n v : Nat} {colons : Option Bool} {cs : List Char}

theorem pairs?_colon (hv : v < 100) (hn : 3 < n) (hcolons : colons ≠ some false) :
    pairs? (k + 1) colons n (padded 10 2 v ++ ':' :: cs) =
      (pairs? k (some true) (n - 3) cs).map fun x => (v :: x.1, x.2) := by
  have hcolon : colons.getD true = true := by
    cases colons with
    | none => rfl
    | some b => cases b <;> simp_all
  simp only [pairs?, number?_pair hv, Option.bind_some, peek, List.head?_cons, Option.getD_some,
    decide_true, hcolon, if_neg (Nat.not_le.2 hn), and_self, if_true, List.drop_succ_cons,
    List.drop_zero]

theorem pairs?_last (hv : v < 100) (hn : n ≤ 3) :
    pairs? (k + 1) colons n (padded 10 2 v ++ cs) =
      some ([v], .last (decide (peek cs ≠ '\x00'))) := by
  simp only [pairs?, number?_pair hv, Option.bind_some, if_pos hn]

theorem pairs?_point (hv : v < 100) (hn : 3 < n) :
    pairs? (k + 1) (some true) n (padded 10 2 v ++ '.' :: cs) =
      some ([v], .fraction (n - 3) cs) := by
  simp only [pairs?, number?_pair hv, Option.bind_some, peek, List.head?_cons, Option.getD_some,
    if_neg (Nat.not_le.2 hn), List.drop_succ_cons, List.drop_zero]
  rfl

end Pairs

theorem behind?_fraction {us : Nat} (h : us < 1000000) {rest : List Char}
    (hrest : rest.dropWhile isDigit = rest) :
    behind? (.fraction 6 (padded 10 6 us ++ rest)) = some (us, decide (peek rest ≠ '\x00')) := by
  simp only [behind?, Nat.min_self, number?_padded (w := 6) (by omega : us < 10 ^ 6),
    Option.map_some, hrest]
  simp

/-- The text of a time with seconds, of which the last pair ends at the end or has a fraction
behind it. -/
theorem clock?_seconds {h m s us : Nat} (hh : h < 100) (hm : m < 100) (hs : s < 100)
    (hus : us < 1000000) {rest : List Char} (hrest : rest.dropWhile isDigit = rest) :
    clock? (8 + (isoFraction us).length) (padded 10 2 h ++ ':' :: (padded 10 2 m ++
      ':' :: (padded 10 2 s ++ (isoFraction us ++ rest)))) =
      some ((h, m, s, us), decide (peek rest ≠ '\x00')) := by
  rw [clock?, pairs?_colon hh (by omega) (by simp), pairs?_colon hm (by omega) (by simp)]
  by_cases hz : us = 0
  · have hnil : isoFraction us = [] := if_pos hz
    rw [hnil, List.nil_append, pairs?_last hs (by simp)]
    simp [behind?, hz]
  · have hpoint : isoFraction us = '.' :: padded 10 6 us := if_neg hz
    have hlen : 8 + (isoFraction us).length - 3 - 3 = 9 := by rw [hpoint]; simp
    rw [hlen, hpoint, List.cons_append, pairs?_point hs (by omega)]
    simp [behind?_fraction hus hrest]

/-- The text of a time without seconds. -/
theorem clock?_minutes {h m : Nat} (hh : h < 100) (hm : m < 100) :
    clock? 5 (padded 10 2 h ++ ':' :: padded 10 2 m) = some ((h, m, 0, 0), false) := by
  have hlast : pairs? 2 (some true) 2 (padded 10 2 m) = some ([m], .last false) := by
    have hstep : pairs? 2 (some true) 2 (padded 10 2 m ++ []) = some ([m], .last false) :=
      pairs?_last hm (by omega)
    rwa [List.append_nil] at hstep
  rw [clock?, pairs?_colon hh (by omega) (by simp), hlast]
  rfl

theorem clockMicros_split (n : Nat) : clockMicros (n / hourMicros, n / minuteMicros % 60,
    n / secondMicros % 60, n % secondMicros) = n := by
  simp only [clockMicros, hourMicros, minuteMicros, secondMicros]
  omega

/-- What is not a digit is no part of a number. -/
theorem not_mem_padded {c : Char} (hc : ∀ d < 10, c ≠ Nat.digitChar d) (w n : Nat) :
    c ∉ padded 10 w n := by
  intro h
  obtain ⟨d, hd, he⟩ := mem_padded (by omega) h
  exact hc d hd he

theorem not_isZone_isoTime {n : Nat} {c : Char} (h : c ∈ isoTime n) : isZone c = false := by
  have hdigit : ∀ w k, c ∈ padded 10 w k → isZone c = false := by
    intro w k hk
    obtain ⟨d, hd, he⟩ := mem_padded (by omega) hk
    have hall : ∀ d < 10, isZone (Nat.digitChar d) = false := by decide
    rw [he]
    exact hall d hd
  simp only [isoTime, isoFraction, List.mem_append, List.mem_cons] at h
  rcases h with h | rfl | h | rfl | h | h
  · exact hdigit _ _ h
  · rfl
  · exact hdigit _ _ h
  · rfl
  · exact hdigit _ _ h
  · split at h
    · simp at h
    · rcases List.mem_cons.1 h with rfl | h
      · rfl
      · exact hdigit _ _ h

/-- An offset is read from its sign and its clock. -/
theorem zone?_signed {o : Int} {cs : List Char}
    (hcs : clock? cs.length cs = some ((o.natAbs / hourMicros, o.natAbs / minuteMicros % 60,
      o.natAbs / secondMicros % 60, o.natAbs % secondMicros), false)) :
    zone? ((if o < 0 then '-' else '+') :: cs) = some (some o) := by
  have hread : ∀ sign, sign ≠ 'Z' → zone? (sign :: cs) =
      some (some (if sign = '-' then -(o.natAbs : Int) else o.natAbs)) := by
    intro sign hsign
    rw [zone?, hcs, Option.bind_some, clockMicros_split, if_neg Bool.false_ne_true]
    exact hsign
  by_cases hneg : o < 0
  · rw [if_pos hneg, hread '-' (by decide), if_pos rfl]
    congr 2
    omega
  · rw [if_neg hneg, hread '+' (by decide), if_neg (by decide)]
    congr 2
    omega

theorem zone?_isoOffset {o : Int} (h : o.natAbs < dayMicros) :
    zone? (isoOffset o) = some (some o) := by
  have hhour : o.natAbs / hourMicros < 100 := by
    unfold hourMicros
    unfold dayMicros at h
    omega
  refine zone?_signed ?_
  split
  · rename_i hmin
    unfold minuteMicros at hmin
    have hs : o.natAbs / secondMicros % 60 = 0 := by unfold secondMicros; omega
    have hus : o.natAbs % secondMicros = 0 := by unfold secondMicros; omega
    rw [List.append_nil, hs, hus]
    simpa using clock?_minutes hhour (by omega : o.natAbs / minuteMicros % 60 < 100)
  · have hclock := clock?_seconds hhour
      (by omega : o.natAbs / minuteMicros % 60 < 100)
      (by omega : o.natAbs / secondMicros % 60 < 100)
      (by unfold secondMicros; omega : o.natAbs % secondMicros < 1000000)
      (rfl : List.dropWhile isDigit [] = [])
    rw [List.append_nil] at hclock
    refine Eq.trans (congrArg (clock? · _) ?_) hclock
    simp only [List.length_append, List.length_cons, length_padded]
    omega

theorem time?_iso {n : Nat} (hn : n < dayMicros) {o : Int} (ho : o.natAbs < dayMicros) :
    time? (isoTime n ++ isoOffset o) = some ((n / hourMicros, n / minuteMicros % 60,
      n / secondMicros % 60, n % secondMicros), some o) := by
  have hday : dayMicros = 86400000000 := rfl
  have hsign : isZone (if o < 0 then '-' else '+') = true := by split <;> rfl
  have hdigit : isDigit (if o < 0 then '-' else '+') = false := by split <;> decide
  have hdrop : (isoTime n ++ isoOffset o).dropWhile (fun c => !isZone c) = isoOffset o := by
    rw [List.dropWhile_append_of_pos fun c hc => by simp [not_isZone_isoTime hc], isoOffset,
      List.dropWhile_cons_of_neg (by simp [hsign])]
  have hlen : (isoTime n ++ isoOffset o).length - (isoOffset o).length =
      8 + (isoFraction (n % secondMicros)).length := by
    rw [List.length_append, Nat.add_sub_cancel, isoTime]
    simp only [List.length_append, List.length_cons, length_padded]
    omega
  have hrest : (isoOffset o).dropWhile isDigit = isoOffset o := by
    rw [isoOffset, List.dropWhile_cons_of_neg (by simp [hdigit])]
  have hclock := clock?_seconds (by unfold hourMicros; omega : n / hourMicros < 100)
    (by omega : n / minuteMicros % 60 < 100) (by omega : n / secondMicros % 60 < 100)
    (by unfold secondMicros; omega : n % secondMicros < 1000000) hrest
  have htext : isoTime n ++ isoOffset o = padded 10 2 (n / hourMicros) ++
      ':' :: (padded 10 2 (n / minuteMicros % 60) ++ ':' :: (padded 10 2 (n / secondMicros % 60) ++
        (isoFraction (n % secondMicros) ++ isoOffset o))) := by
    simp [isoTime]
  have hne : isoOffset o ≠ [] := List.cons_ne_nil _ _
  simp only [time?, hdrop, hlen]
  rw [htext, hclock, Option.bind_some, if_neg (fun h => hne h.1), zone?_isoOffset ho,
    Option.map_some]

theorem length_isoDate (ord : Nat) : (isoDate ord).length = 10 := by
  simp [isoDate]

theorem daysInMonth_le (leap : Bool) (month : Nat) (h : month ≤ 12) :
    daysInMonth leap month ≤ 31 := by
  have hall : ∀ leap : Bool, ∀ month < 13, daysInMonth leap month ≤ 31 := by decide
  exact hall leap month (by omega)

theorem date?_isoDate {ord : Nat} (h : 1 ≤ ord) (hmax : ord ≤ maxOrdinal) :
    date? (isoDate ord) = some ord := by
  have hdate := isDate_calendar h hmax
  have hord := ordinal_calendar h
  simp only [isDate, Bool.and_eq_true, decide_eq_true_eq] at hdate
  obtain ⟨⟨⟨⟨⟨hy, hy'⟩, hm⟩, hm'⟩, hd⟩, hd'⟩ := hdate
  have hdays := daysInMonth_le (isLeap (calendar ord).1) _ hm'
  have hlast := number?_pair (n := (calendar ord).2.2) (by omega) []
  rw [List.append_nil] at hlast
  have hmonth : ∀ cs rest, padded 10 2 (calendar ord).2.1 ++ rest ≠ 'W' :: cs := by
    intro cs rest he
    have hmem : 'W' ∈ padded 10 2 (calendar ord).2.1 := by
      have hlen := length_padded 10 2 (calendar ord).2.1
      cases hp : padded 10 2 (calendar ord).2.1 with
      | nil => rw [hp] at hlen; cases hlen
      | cons c rest =>
        rw [hp, List.cons_append, List.cons.injEq] at he
        rw [he.1]
        exact List.mem_cons_self ..
    exact not_mem_padded (by decide) _ _ hmem
  rw [date?, isoDate, number?_padded (by omega)]
  simp only [Option.bind_some, List.head?_cons, decide_true, if_true, List.drop_succ_cons,
    List.drop_zero]
  split
  · rename_i cs he
    exact absurd he (hmonth cs _)
  · rw [number?_pair (by omega)]
    simp only [Option.bind_some, List.head?_cons, decide_true, if_true, List.drop_succ_cons,
      List.drop_zero, hlast]
    rw [if_pos (isDate_calendar h hmax), hord]

theorem separator_iso (ord : Nat) (rest : List Char) :
    separator (isoDate ord ++ 'T' :: rest) = 10 := by
  have hlen : (isoDate ord ++ 'T' :: rest).length ≠ 7 := by
    rw [List.length_append, length_isoDate]
    omega
  have hdash : (isoDate ord ++ 'T' :: rest)[4]? = some '-' := by
    simp [isoDate]
  have hweek : (isoDate ord ++ 'T' :: rest)[5]? ≠ some 'W' := by
    intro he
    have hmem : 'W' ∈ padded 10 2 (calendar ord).2.1 := by
      refine List.mem_of_getElem? (i := 0) ?_
      rw [← he]
      simp [isoDate, List.getElem?_append]
    exact not_mem_padded (by decide) _ _ hmem
  rw [separator, if_neg hlen, if_pos hdash, if_neg hweek]

/-- **The text says what was written**, also an offset of less than a second. -/
theorem readIso_isoformat {d : DateTime} {o : Int} (hw : d.wall < maxOrdinal * dayMicros)
    (ho : d.utcOffset = some o) (hoff : o.natAbs < dayMicros) :
    readIso (isoformat d) = some (d.wall, some o) := by
  have hday : d.wall / dayMicros < maxOrdinal := by
    rw [Nat.div_lt_iff_lt_mul (by decide)]
    exact hw
  have htext : isoformat d = isoDate (d.wall / dayMicros + 1) ++
      'T' :: (isoTime (d.wall % dayMicros) ++ isoOffset o) := by
    rw [isoformat, ho]
  have hmod : d.wall % dayMicros < dayMicros := Nat.mod_lt d.wall (by decide)
  have hclock : d.wall % dayMicros / hourMicros < 24 ∧ d.wall % dayMicros / minuteMicros % 60 < 60 ∧
      d.wall % dayMicros / secondMicros % 60 < 60 := by
    simp only [dayMicros, hourMicros, minuteMicros, secondMicros] at hmod ⊢
    omega
  rw [readIso, htext, separator_iso, List.take_left' (length_isoDate _),
    List.drop_left' (length_isoDate _), date?_isoDate (Nat.le_add_left _ _) hday, Option.bind_some,
    if_pos (Nat.succ_le_of_lt hday)]
  have hwidth : leadWidth 'T' = 1 := rfl
  simp only [hwidth, List.drop_succ_cons, List.drop_zero, time?_iso hmod hoff, Option.bind_some,
    if_pos hclock, clockMicros_split, Nat.add_sub_cancel, Nat.div_add_mod']

theorem isoformat_injective {d e : DateTime} {o p : Int} (hd : d.wall < maxOrdinal * dayMicros)
    (he : e.wall < maxOrdinal * dayMicros) (ho : d.utcOffset = some o) (hp : e.utcOffset = some p)
    (hoff : o.natAbs < dayMicros) (hoff' : p.natAbs < dayMicros)
    (h : isoformat d = isoformat e) : d.wall = e.wall ∧ o = p := by
  have hread := readIso_isoformat hd ho hoff
  rw [h, readIso_isoformat he hp hoff', Option.some.injEq, Prod.mk.injEq, Option.some.injEq]
    at hread
  exact ⟨hread.1.symm, hread.2.symm⟩

theorem byteChars_of_ascii {cs : List Char} (h : ∀ c ∈ cs, c.toNat < 128) : byteChars cs = cs := by
  induction cs with
  | nil => rfl
  | cons c cs ih =>
    obtain ⟨hc, hcs⟩ := List.forall_mem_cons.1 h
    have hbyte : String.utf8EncodeChar c = [UInt8.ofNat c.toNat] :=
      if_pos (Nat.le_of_lt_succ hc)
    have hmod : (UInt8.ofNat c.toNat).toNat = c.toNat := by
      rw [UInt8.toNat_ofNat']
      exact Nat.mod_eq_of_lt (by omega)
    rw [byteChars, Utf8.encode_cons, hbyte, List.map_append, List.map_singleton, hmod,
      Char.ofNat_toNat]
    exact congrArg (c :: ·) (ih hcs)

/-- The code points of a text are no halves of surrogates. -/
theorem isSurrogate_toNat (c : Char) : isSurrogate c.toNat = false := by
  have hvalid := c.valid
  rw [UInt32.isValidChar, Nat.isValidChar] at hvalid
  simp only [isSurrogate, Bool.and_eq_false_iff, decide_eq_false_iff_not]
  simp only [Char.toNat]
  omega

theorem any_isSurrogate_text (cs : List Char) : (cs.map Char.toNat).any isSurrogate = false := by
  simp [isSurrogate_toNat]

theorem sanitized_text (cs : List Char) : sanitized (cs.map Char.toNat) = cs.map Char.toNat := by
  have hnone : ([7, 8, 10].find? fun i => ((cs.map Char.toNat)[i]?).any isSurrogate) = none := by
    rw [List.find?_eq_none]
    intro i hi
    cases h : cs[i]? with
    | none => simp [h]
    | some c => simp [h, isSurrogate_toNat]
  rw [sanitized, hnone]

/-- A text of ASCII is read as it stands. -/
theorem fromisoformat_text {cs : List Char} (hlen : 7 ≤ cs.length) (h : ∀ c ∈ cs, c.toNat < 128) :
    fromisoformat (cs.map Char.toNat) = (readIso cs).bind fun r =>
      match r.2 with
      | none => some ⟨r.1, none⟩
      | some o => (offset? o).map fun o => ⟨r.1, some o⟩ := by
  have hmap : (cs.map Char.toNat).map Char.ofNat = cs := by
    rw [List.map_map]
    exact (List.map_congr_left fun c _ => Char.ofNat_toNat c).trans (List.map_id _)
  have hshort : ¬ ((cs.map Char.toNat).length < 7 ∨
      (cs.map Char.toNat).any isSurrogate = true) := by
    rw [any_isSurrogate_text, List.length_map]
    simpa using hlen
  simp only [fromisoformat, sanitized_text, if_neg hshort, hmap, byteChars_of_ascii h]

/-- **Reading undoes writing**, up to an offset of less than a second, which is dropped. -/
theorem fromisoformat_isoformat {d : DateTime} {o : Int} (hw : d.wall < maxOrdinal * dayMicros)
    (ho : d.utcOffset = some o) (hoff : o.natAbs < dayMicros) :
    fromisoformat ((isoformat d).map Char.toNat) =
      some ⟨d.wall, some (if o.natAbs < secondMicros then 0 else o)⟩ := by
  have hlen : 7 ≤ (isoformat d).length := by
    simp only [isoformat, List.length_append, length_isoDate]
    omega
  have hascii : ∀ c ∈ isoformat d, c.toNat < 128 := fun c hc =>
    (List.all_iff_forall_prop.1 (by decide) : ∀ c ∈ isoAlphabet, c.toNat < 128) c (mem_isoformat hc)
  rw [fromisoformat_text hlen hascii, readIso_isoformat hw ho hoff, Option.bind_some]
  simp only [offset?, if_pos hoff]
  split <;> rfl

end Text
