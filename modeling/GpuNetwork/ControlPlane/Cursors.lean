import GpuNetwork.ControlPlane.Listings

/-!
# What a cursor can be

A cursor comes from a client, and may be any string.

* `AwareTime`, `cursors_come_back` — the cursors that are handed out.
* `ReadsSafely` — every string is read or refused, and so the listings answer.
* `Slips`, `cursor_read_safely_iff` — the strings on which this fails.
-/

namespace GpuNetwork

open ReadCommitted Text

/-! ## The cursors that are handed out -/

/-- A `datetime` that says how far its clock is ahead of UTC, by less than a day. -/
structure AwareTime where
  wall : Nat
  offset : Int
  wall_lt : wall < maxOrdinal * dayMicros
  offset_lt : offset.natAbs < dayMicros

namespace AwareTime

def dateTime (t : AwareTime) : DateTime := ⟨t.wall, some t.offset⟩

/-- The point in time, in microseconds since 1970. -/
def instant (t : AwareTime) : Int := t.wall - t.offset - unixEpoch

/-- `fromisoformat` undoes `isoformat` on the time. -/
def IsoInverse (t : AwareTime) : Prop :=
  fromisoformat ((isoformat t.dateTime).map Char.toNat) = some t.dateTime

/-- It does, unless the offset is less than a second. -/
theorem isoInverse_iff (t : AwareTime) :
    t.IsoInverse ↔ t.offset = 0 ∨ secondMicros ≤ t.offset.natAbs := by
  have hiso := fromisoformat_isoformat (d := t.dateTime) t.wall_lt rfl t.offset_lt
  rw [IsoInverse, hiso, dateTime, Option.some.injEq, DateTime.mk.injEq, Option.some.injEq,
    and_iff_right rfl]
  split
  · rename_i hsmall
    rw [or_iff_left (Nat.not_le.2 hsmall), eq_comm]
  · rename_i hlarge
    exact iff_of_true rfl (Or.inr (Nat.not_lt.1 hlarge))

end AwareTime

/-- **Cursors come back**: the identifier is the one that went in, and so is the instant, where
`fromisoformat` undoes `isoformat`; the text needs no escaping, and only equal values have equal
texts. -/
theorem cursors_come_back :
    (∀ (nesting : Nat) (t : AwareTime) (id : Fin (2 ^ 128)), ∃ ts,
      decodeCursor nesting (encodeCursor t.dateTime id) = .ok (ts, (id : Nat)) ∧
        (t.IsoInverse → ts.instant? = some t.instant)) ∧
    (∀ (t : AwareTime) (id : Fin (2 ^ 128)), ∀ c ∈ encodeCursor t.dateTime id,
      c ∈ Base64.alphabet) ∧
    ∀ (t t' : AwareTime) (id id' : Fin (2 ^ 128)),
      (t.instant, t.offset, id) ≠ (t'.instant, t'.offset, id') →
        encodeCursor t.dateTime id ≠ encodeCursor t'.dateTime id' := by
  refine ⟨fun nesting t id => ⟨_,
    decodeCursor_encodeCursor nesting t.wall_lt rfl t.offset_lt id.isLt, fun hiso => ?_⟩,
    fun t id c hc => Base64.mem_unpadded hc, fun t t' id id' hne heq => hne ?_⟩
  · have hread := fromisoformat_isoformat (d := t.dateTime) t.wall_lt rfl t.offset_lt
    rw [hiso, Option.some.injEq] at hread
    rw [← hread]
    rfl
  · obtain ⟨hwall, hoffset, hid⟩ := encodeCursor_injective t.wall_lt t'.wall_lt rfl rfl
      t.offset_lt t'.offset_lt id.isLt id'.isLt heq
    have hinstant : t.instant = t'.instant := by
      rw [AwareTime.instant, AwareTime.instant, hoffset, show t.wall = t'.wall from hwall]
    rw [hinstant, hoffset, Fin.ext hid]

/-- Noon of the first day of 1970, five hours and a half ahead of UTC. -/
def indianNoon : AwareTime where
  wall := unixEpoch + 12 * 3600 * secondMicros
  offset := 5 * 3600 * secondMicros + 1800 * secondMicros
  wall_lt := by decide
  offset_lt := by decide

theorem cursors_come_back_at_indianNoon : ∃ ts,
    decodeCursor 1000 (encodeCursor indianNoon.dateTime 7) = .ok (ts, 7) ∧
      ts.instant? = some indianNoon.instant := by
  obtain ⟨ts, hdec, hinstant⟩ := cursors_come_back.1 1000 indianNoon 7
  exact ⟨ts, hdec, hinstant (indianNoon.isoInverse_iff.2 (by decide))⟩

/-! ## Any string as a cursor -/

/-- `decode_cursor` returns a time that says how far it is ahead of UTC and an identifier, or
raises `InvalidCursorError`. -/
def DecodesSafely (nesting : Nat) (cursor : Str) : Prop :=
  decodeCursor nesting cursor = .error .invalidCursor ∨
    ∃ ts id, decodeCursor nesting cursor = .ok (ts, id) ∧ ts.utcOffset ≠ none

/-- A listing answers with a page, or with the error for a cursor that cannot be read; and
with that of the driver only where another filter has a NUL. -/
def AnswersPage {α : Type} (texts : List Str) (x : Handler (List α × Option Str)) : Prop :=
  ∀ (env : Env Row Key) (db : Database),
    x.answer env db {} = some (.error .invalidPaginationCursor) ∨
      (∃ page, x.answer env db {} = some (.ok page)) ∨
      (texts.all plainText = false ∧
        x.answer env db {} = some (.error (.database .nulCharacter)))

/-- The string is read or refused, and every listing answers it. -/
structure ReadsSafely (app : App) (cursor : Str) : Prop where
  decodes : DecodesSafely app.jsonNesting cursor
  jobs : ∀ owner status limit,
    AnswersPage status.toList (listJobsPage app owner status (some cursor) limit)
  users : ∀ status emailQuery limit, AnswersPage (status.toList ++ emailQuery.toList)
    (listUsersPage app status emailQuery (some cursor) limit)
  events : ∀ f limit, AnswersPage f.texts (listAuditPage app f (some cursor) limit)

/-- What the decoder lets through. -/
inductive Slips (app : App) (cursor : Str) : Prop
  /-- The JSON nests too deep for the parser. -/
  | nested : cursorPayload app.jsonNesting cursor = .error .tooDeep → Slips app cursor
  /-- The time can be read, and the identifier is a number, a truth value, an array or an
  object. -/
  | untyped {payload v : Json.Value} {ts : DateTime} :
      cursorPayload app.jsonNesting cursor = .ok payload → cursorTime? payload = some ts →
      payload.field? "id".toList = some v → v ≠ .null → (∀ id, v ≠ .string id) → Slips app cursor
  /-- Both can be read, and the time does not say how far it is ahead of UTC. -/
  | naive {payload : Json.Value} {ts : DateTime} {id : List Nat} :
      cursorPayload app.jsonNesting cursor = .ok payload → cursorTime? payload = some ts →
      payload.field? "id".toList = some (.string id) → (uuidOf? id).isSome →
      ts.utcOffset = none → Slips app cursor
  /-- Both can be read, and in UTC the time is outside the years 1 to 9999. -/
  | outside {payload : Json.Value} {ts : DateTime} {id : List Nat} {t : Time} :
      cursorPayload app.jsonNesting cursor = .ok payload → cursorTime? payload = some ts →
      payload.field? "id".toList = some (.string id) → (uuidOf? id).isSome →
      ts.instant? = some t → ¬ InRange t → Slips app cursor

variable {app : App} {cursor : Str}

/-! ### What the decoder returns -/

/-- The identifier is read, or it is refused, or it is of another type than a string. -/
theorem cursorId_cases (payload : Json.Value) :
    (cursorId payload = .error .invalidCursor) ∨
    (∃ id uuid, payload.field? "id".toList = some (.string id) ∧ uuidOf? id = some uuid ∧
      cursorId payload = .ok uuid) ∨
    (∃ v, payload.field? "id".toList = some v ∧ v ≠ .null ∧ (∀ id, v ≠ .string id) ∧
      cursorId payload = .error .attributeError) := by
  unfold cursorId
  cases hfield : payload.field? "id".toList with
  | none => exact Or.inl rfl
  | some v =>
    cases v with
    | null => exact Or.inl rfl
    | string id =>
      cases huuid : uuidOf? id with
      | none => exact Or.inl (by simp [huuid])
      | some uuid => exact Or.inr (Or.inl ⟨id, uuid, rfl, huuid, by simp [huuid]⟩)
    | bool b => exact Or.inr (Or.inr ⟨_, rfl, by simp, by simp, rfl⟩)
    | number text => exact Or.inr (Or.inr ⟨_, rfl, by simp, by simp, rfl⟩)
    | array xs => exact Or.inr (Or.inr ⟨_, rfl, by simp, by simp, rfl⟩)
    | object members => exact Or.inr (Or.inr ⟨_, rfl, by simp, by simp, rfl⟩)

/-- Where nothing slips through, the decoder refuses, or returns a time of the calendar that
says how far it is ahead of UTC. -/
theorem decodeCursor_of_not_slips (h : ¬ Slips app cursor) :
    decodeCursor app.jsonNesting cursor = .error .invalidCursor ∨
      ∃ ts id t, decodeCursor app.jsonNesting cursor = .ok (ts, id) ∧ ts.instant? = some t ∧
        InRange t := by
  unfold decodeCursor
  cases hpayload : cursorPayload app.jsonNesting cursor with
  | error e =>
    cases e with
    | malformed => exact Or.inl rfl
    | tooDeep => exact absurd (Slips.nested hpayload) h
  | ok payload =>
    cases hts : cursorTime? payload with
    | none => exact Or.inl (by simp only [hts])
    | some ts =>
      simp only [hts]
      rcases cursorId_cases payload with hid | ⟨id, uuid, hfield, huuid, hid⟩ |
        ⟨v, hfield, hnull, hstring, -⟩
      · rw [hid]
        exact Or.inl rfl
      · have hsome : (uuidOf? id).isSome = true := by rw [huuid]; rfl
        rw [hid]
        cases hoffset : ts.utcOffset with
        | none => exact absurd (Slips.naive hpayload hts hfield hsome hoffset) h
        | some o =>
          have hinstant : ts.instant? = some ((ts.wall : Int) - o - unixEpoch) := by
            rw [DateTime.instant?, hoffset]
            rfl
          refine Or.inr ⟨ts, uuid, _, rfl, hinstant, ?_⟩
          by_contra hout
          exact h (Slips.outside hpayload hts hfield hsome hinstant hout)
      · exact absurd (Slips.untyped hpayload hts hfield hnull hstring) h

theorem decodeCursor_of_typed {payload : Json.Value} {ts : DateTime} {id : List Nat}
    (hpayload : cursorPayload app.jsonNesting cursor = .ok payload)
    (hts : cursorTime? payload = some ts)
    (hfield : payload.field? "id".toList = some (.string id)) (huuid : (uuidOf? id).isSome) :
    ∃ uuid, decodeCursor app.jsonNesting cursor = .ok (ts, uuid) := by
  obtain ⟨uuid, hid⟩ := Option.isSome_iff_exists.1 huuid
  refine ⟨uuid, ?_⟩
  rw [decodeCursor, hpayload]
  simp only [hts, cursorId, hfield, hid, Option.elim_some]
  rfl

/-! ### What the listings answer -/

/-- The listings answer a cursor with a page where it stands for a bound and the filters are
sent, and otherwise as the decoder does. -/
theorem answers_of_bound {α : Type} {texts : List Str}
    {x : Option (Time × Uuid) → Handler (List α × Option Str)}
    (hpage : texts.all plainText = true → ∀ bound env db,
      ∃ page, (x bound).answer env db {} = some (.ok page))
    (hnul : texts.all plainText = false → ∀ bound, x bound = .throw (.database .nulCharacter))
    (h : (∃ bound, cursorBound app (some cursor) = pure bound) ∨
      cursorBound app (some cursor) = .throw .invalidPaginationCursor) :
    AnswersPage texts (cursorBound app (some cursor) >>= x) := by
  intro env db
  rcases h with ⟨bound, hbound⟩ | hthrow
  · have hrun : cursorBound app (some cursor) >>= x = x bound := by
      rw [hbound]
      rfl
    rw [hrun]
    cases htexts : texts.all plainText with
    | true => exact Or.inr (Or.inl (hpage htexts bound env db))
    | false =>
      rw [hnul htexts]
      exact Or.inr (Or.inr ⟨rfl, rfl⟩)
  · rw [hthrow]
    exact Or.inl rfl

theorem bound_of_not_slips (h : ¬ Slips app cursor) :
    (∃ bound, cursorBound app (some cursor) = pure bound) ∨
      cursorBound app (some cursor) = .throw .invalidPaginationCursor := by
  cases cursor with
  | nil => exact Or.inl ⟨none, rfl⟩
  | cons c cs =>
    rcases decodeCursor_of_not_slips h with hdec | ⟨ts, id, t, hdec, hinstant, hrange⟩
    · refine Or.inr ?_
      simp only [cursorBound, hdec]
    · refine Or.inl ⟨some (t, id), ?_⟩
      simp only [cursorBound, hdec, hinstant, Option.getD_some, if_pos hrange]

/-- A time that the driver cannot take to UTC. -/
theorem bound_of_outside {ts : DateTime} {id : Uuid} {t : Time}
    (hdec : decodeCursor app.jsonNesting cursor = .ok (ts, id)) (hinstant : ts.instant? = some t)
    (hout : ¬ InRange t) : cursorBound app (some cursor) = .throw .dateOutOfRange := by
  cases cursor with
  | nil =>
    have hempty : decodeCursor app.jsonNesting [] = .error .invalidCursor := rfl
    rw [hempty] at hdec
    cases hdec
  | cons c cs => simp only [cursorBound, hdec, hinstant, Option.getD_some, if_neg hout]

/-! ### The strings on which it fails -/

/-- An identifier of another kind than a string is not read. -/
theorem attributeError_of_untyped {payload v : Json.Value} {ts : DateTime}
    (hpayload : cursorPayload app.jsonNesting cursor = .ok payload)
    (hts : cursorTime? payload = some ts) (hfield : payload.field? "id".toList = some v)
    (hnull : v ≠ .null) (hstring : ∀ id, v ≠ .string id) :
    decodeCursor app.jsonNesting cursor = .error .attributeError := by
  have hid : cursorId payload = .error .attributeError := by
    rw [cursorId, hfield]
    cases v with
    | null => exact absurd rfl hnull
    | string id => exact absurd rfl (hstring id)
    | _ => rfl
  rw [decodeCursor, hpayload]
  simp only [hts, hid]
  rfl

/-- **What slips through** is not read safely. -/
theorem not_readsSafely_of_slips (hslips : Slips app cursor) : ¬ ReadsSafely app cursor := by
  rintro ⟨hdecodes, hjobs, -, -⟩
  have hwrong : ∀ {e : CursorError}, decodeCursor app.jsonNesting cursor = .error e →
      e = .invalidCursor := by
    intro e he
    rcases hdecodes with hdec | ⟨ts, id, hdec, -⟩
    · rw [hdec] at he
      exact (Except.error.inj he).symm
    · rw [hdec] at he
      cases he
  cases hslips with
  | nested hpayload =>
    have he := hwrong (e := .recursionError) (by rw [decodeCursor, hpayload])
    cases he
  | untyped hpayload hts hfield hnull hstring =>
    have he := hwrong (attributeError_of_untyped hpayload hts hfield hnull hstring)
    cases he
  | naive hpayload hts hfield huuid hoffset =>
    obtain ⟨uuid, hdec⟩ := decodeCursor_of_typed hpayload hts hfield huuid
    rcases hdecodes with herr | ⟨ts', id', hdec', haware⟩
    · rw [hdec] at herr
      cases herr
    · rw [hdec, Except.ok.injEq, Prod.mk.injEq] at hdec'
      exact haware (hdec'.1 ▸ hoffset)
  | outside hpayload hts hfield huuid hinstant hout =>
    obtain ⟨uuid, hdec⟩ := decodeCursor_of_typed hpayload hts hfield huuid
    have hbound := bound_of_outside hdec hinstant hout
    have hanswer : (listJobsPage app sampleUser none (some cursor) 1).answer
        ⟨[], [], 0, 0, 0⟩ Db.empty {} = some (.error .dateOutOfRange) := by
      rw [listJobsPage, hbound]
      rfl
    have hpage := hjobs sampleUser none 1 ⟨[], [], 0, 0, 0⟩ Db.empty
    rw [hanswer] at hpage
    rcases hpage with hpage | ⟨page, hpage⟩ | ⟨htexts, -⟩
    · cases hpage
    · cases hpage
    · cases htexts

/-- What does not slip through is read or refused, and every listing answers it. -/
theorem readsSafely_of_not_slips (h : ¬ Slips app cursor) : ReadsSafely app cursor := by
  have hbound := bound_of_not_slips h
  refine ⟨?_, fun owner status limit => ?_, fun status emailQuery limit => ?_, fun f limit => ?_⟩
  · refine (decodeCursor_of_not_slips h).imp id ?_
    rintro ⟨ts, id, t, hdec, hinstant, -⟩
    refine ⟨ts, id, hdec, fun hoffset => ?_⟩
    rw [DateTime.instant?, hoffset] at hinstant
    cases hinstant
  · refine answers_of_bound (fun htexts bound env db => ?_) (fun htexts bound => ?_) hbound
    · rw [listJobsForUser, sendTexts_of_plain htexts]
      exact ⟨_, rfl⟩
    · rw [listJobsForUser, sendTexts_of_not_plain htexts]
      rfl
  · refine answers_of_bound (fun htexts bound env db => ?_) (fun htexts bound => ?_) hbound
    · rw [listFilteredUsers, sendTexts_of_plain htexts]
      exact ⟨_, rfl⟩
    · rw [listFilteredUsers, sendTexts_of_not_plain htexts]
      rfl
  · refine answers_of_bound (fun htexts bound env db => ?_) (fun htexts bound => ?_) hbound
    · rw [listAudit, sendTexts_of_plain htexts]
      exact ⟨_, rfl⟩
    · rw [listAudit, sendTexts_of_not_plain htexts]
      rfl

/-- **A string is read or refused, and the listings answer it, unless it slips through.** -/
theorem cursor_read_safely_iff (app : App) (cursor : Str) :
    ReadsSafely app cursor ↔ ¬ Slips app cursor :=
  ⟨fun h hslips => not_readsSafely_of_slips hslips h, readsSafely_of_not_slips⟩

/-- The cursor with the JSON `{"ts":"2024-01-01T00:00:00+00:00","id":1}`. -/
def numberedCursor : Str := "eyJ0cyI6IjIwMjQtMDEtMDFUMDA6MDA6MDArMDA6MDAiLCJpZCI6MX0".toList

theorem numberedCursor_is_not_read_safely : ¬ ReadsSafely plainApp numberedCursor := by
  rintro ⟨hdecodes, -, -, -⟩
  have hdec : decodeCursor plainApp.jsonNesting numberedCursor = .error .attributeError := by
    decide +kernel
  rw [DecodesSafely, hdec] at hdecodes
  rcases hdecodes with h | ⟨ts, id, h, -⟩ <;> cases h

end GpuNetwork
