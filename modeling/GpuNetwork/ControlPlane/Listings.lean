import GpuNetwork.ControlPlane.Server
import GpuNetwork.Store.Keyset
import Mathlib.Data.Prod.Lex
import Mathlib.Data.Finset.Image

/-!
# The listings

`list_for_user`, `list_users` and `list_audit_events`, read page by page along the cursors
they hand out.  Between two pages rows may be added to any table, as the audit log does
itself.

* `Row.stamp`, `sorted_matching` — the order of a listing.
* `cursorBound_encodeCursor` — a cursor names the row it was made for.
* `Growing` — the stores the pages are read from.
* `ListsAll` — what the pages of a listing are to have.
* `Lists` — and that a filter with a NUL is answered with no page at all.
-/

namespace GpuNetwork

open ReadCommitted ReadCommitted.Spec

/-- `(created_at, id)`, of the rows of the tables that are listed. -/
def Row.stamp : Row → Time × Uuid
  | .user u => (u.createdAt, u.id)
  | .job j => (j.createdAt, j.id)
  | .auditLog a => (a.createdAt, a.id)
  | _ => (0, 0)

/-- The key of a listing, newest first and by identifier among rows of one time. -/
def Row.place (r : Row) : Time ×ₗ Uuid := toLex r.stamp

/-- Times and identifiers are values of their types: a `datetime` lies in the years 1 to
9999, a `UUID` has 128 bits. -/
def Stamped (db : Database) : Prop :=
  ∀ r ∈ db.rows, Text.InRange r.stamp.1 ∧ r.stamp.2 < 2 ^ 128

/-- Rows are added to the store, finitely many in all. -/
structure Growing (dbs : Nat → Database) : Prop where
  grows : ∀ i key r, (dbs i).get key = some r → (dbs (i + 1)).get key = some r
  finite : ∃ n, ∀ i, n ≤ i → dbs i = dbs n
  stamped : ∀ i, Stamped (dbs i)

/-- A page as a service returns it, with its rows. -/
def fetched {α : Type} (row : α → Row) (x : Handler (List α × Option Str))
    (env : Env Row Key) (db : Database) : Option (List Row × Option Str) :=
  match x.answer env db {} with
  | some (.ok (page, next)) => some (page.map row, next)
  | _ => none

/-- The rows are in descending order, and so each of them is there once. -/
def NewestFirst (rows : List Row) : Prop := rows.Pairwise fun a b => b.place < a.place

/-- **Following the cursors loses and repeats nothing.**  The pages come to an end; on a
store that does not change they have exactly the rows that match, and otherwise each row
that matches throughout, and only such as matched at some time. -/
structure ListsAll (page : Option Str → Env Row Key → Database → Option (List Row × Option Str))
    (Matches : Database → Row → Prop) : Prop where
  whole : ∀ (envs : Nat → Env Row Key) (db : Database), Stamped db →
    ∃ n pages, Keyset.follow (fun i cursor => page cursor (envs i) db) n 0 none = some pages ∧
      NewestFirst pages.flatten ∧ ∀ r, r ∈ pages.flatten ↔ Matches db r
  grown : ∀ (envs : Nat → Env Row Key) (dbs : Nat → Database), Growing dbs →
    ∃ n pages, Keyset.follow (fun i cursor => page cursor (envs i) (dbs i)) n 0 none = some pages ∧
      NewestFirst pages.flatten ∧ (∀ r, (∀ i, Matches (dbs i) r) → r ∈ pages.flatten) ∧
      ∀ r ∈ pages.flatten, ∃ i, Matches (dbs i) r

/-- A listing lists all, unless its filters have a text that is not sent: then it has no
page. -/
structure Lists (texts : List Str)
    (page : Option Str → Env Row Key → Database → Option (List Row × Option Str))
    (Matches : Database → Row → Prop) : Prop where
  sent : texts.all plainText = true → ListsAll page Matches
  refused : texts.all plainText = false → ∀ cursor env db, page cursor env db = none

/-- The jobs that `list_for_user` lists. -/
def MatchesJobs (owner : User) (status : Option Str) (db : Database) (r : Row) : Prop :=
  r ∈ db.rows ∧ ∃ j, r = .job j ∧ j.passes owner.id status = true

/-- The accounts that `list_users` lists. -/
def MatchesUsers (lower : Char → Char) (status emailQuery : Option Str) (db : Database)
    (r : Row) : Prop :=
  r ∈ db.rows ∧ ∃ u, r = .user u ∧ u.passes lower status (emailQuery.getD []) = true

/-- The audit rows that `list_audit_events` lists. -/
def MatchesAudit (lower : Char → Char) (f : AuditFilter) (db : Database) (r : Row) : Prop :=
  r ∈ db.rows ∧ ∃ a, r = .auditLog a ∧ a.passes f = true ∧ (f.userEmail.getD [] = [] ∨
    ∃ u, .user u ∈ db.rows ∧ a.userId = some u.id ∧
      ilike lower ('%' :: f.userEmail.getD [] ++ ['%']) u.email = true)

/-- The page of `list_audit_events`, without the row it adds to the log. -/
def listAuditPage (app : App) (f : AuditFilter) (cursor : Option Str) (limit : Nat) :
    Handler (List (AuditLog × Option Str) × Option Str) := do
  let decoded ← cursorBound app cursor
  let rows ← listAudit app f decoded limit
  pure (rows, nextCursor limit (rows.map fun r => (r.1.createdAt, r.1.id)))

theorem listAuditEvents_eq (app : App) (caller : Caller) (f : AuditFilter) (cursor : Option Str)
    (limit : Nat) :
    listAuditEvents app caller f cursor limit = (do
      let admin ← requireAdmin app caller.bearer
      let (rows, next) ← listAuditPage app f cursor limit
      createAudit .auditViewed (some admin.id)
        { actorEmail := some admin.email, filters := some f, resultCount := some rows.length }
        caller.client
      commit
      pure (.auditEvents rows next)) := by
  unfold listAuditEvents listAuditPage
  simp only [Prog.bind_assoc]
  rfl

/-! ## Cursors -/

theorem instant?_utc {t : Time} (h : Text.InRange t) : (Text.DateTime.utc t).instant? = some t := by
  simp only [Text.DateTime.utc, Text.DateTime.instant?, Option.map_some, Option.some.injEq]
  have h₀ := h.1
  omega

/-- **A cursor names the row it was made for.** -/
theorem cursorBound_encodeCursor (app : App) {t : Time} {id : Uuid} (ht : Text.InRange t)
    (hid : id < 2 ^ 128) :
    cursorBound app (some (encodeCursor (.utc t) id)) = pure (some (t, id)) := by
  have hwall : (Text.DateTime.utc t).wall < Text.maxOrdinal * Text.dayMicros := by
    have h₀ := ht.1
    have h₁ := ht.2
    simp only [Text.DateTime.utc]
    omega
  have hdec : decodeCursor app.jsonNesting (encodeCursor (.utc t) id) = .ok (.utc t, id) :=
    decodeCursor_encodeCursor app.jsonNesting hwall rfl (by decide) hid
  cases hcur : encodeCursor (.utc t) id with
  | nil =>
    rw [hcur] at hdec
    cases hdec
  | cons c cs =>
    rw [hcur] at hdec
    simp only [cursorBound, hdec, instant?_utc ht, Option.getD_some, if_pos ht]

/-! ## One page -/

theorem place_lt_iff {r : Row} {t : Time} {id : Uuid} :
    r.place < toLex (t, id) ↔ r.stamp.1 < t ∨ (r.stamp.1 = t ∧ r.stamp.2 < id) := by
  rw [Row.place, Prod.Lex.toLex_lt_toLex]

theorem place_le_iff {a b : Row} : b.place ≤ a.place ↔
    b.stamp.1 < a.stamp.1 ∨ (b.stamp.1 = a.stamp.1 ∧ b.stamp.2 ≤ a.stamp.2) := by
  rw [Row.place, Row.place, Prod.Lex.toLex_le_toLex]

/-- The rows that a clause orders by their stamps come in descending order. -/
theorem newestFirst_matching (db : Database) {w : Cond}
    (hbefore : ∀ a b, w.holds a = true → w.holds b = true →
      (w.before a b = true ↔ b.place ≤ a.place))
    (hkey : ∀ a b, w.holds a = true → w.holds b = true → a.stamp.2 = b.stamp.2 → a.key = b.key) :
    NewestFirst (matching db w) := by
  refine pairwise_matching Row.place db hbefore fun a b ha hb he => ?_
  obtain ⟨hrow, hholds⟩ := mem_matching.1 ha
  obtain ⟨hrow', hholds'⟩ := mem_matching.1 hb
  have hstamp : a.stamp = b.stamp := toLex.injective he
  have hsame := hkey a b hholds hholds' (by rw [hstamp])
  exact List.inj_on_of_nodup_map db.nodup hrow hrow' hsame

/-- The cursor stands for the bound. -/
def Means (app : App) (cursor : Option Str) (bound : Option (Time ×ₗ Uuid)) : Prop :=
  cursorBound app cursor = pure (bound.map ofLex)

/-- A service whose pages are the first of the rows below its cursor serves the listing. -/
theorem serves_of_pages (app : App) (Matches : Database → Row → Prop) {limit : Nat}
    {dbs : Nat → Database} {envs : Nat → Env Row Key}
    {page : Option Str → Env Row Key → Database → Option (List Row × Option Str)}
    (rows : Nat → Option (Time × Uuid) → List Row)
    (hstamped : ∀ i, Stamped (dbs i)) (hrow : ∀ i r, Matches (dbs i) r → r ∈ (dbs i).rows)
    (hpage : ∀ i cursor bound, cursorBound app cursor = pure bound →
      page cursor (envs i) (dbs i) = some ((rows i bound).take limit,
        nextCursor limit (((rows i bound).take limit).map Row.stamp)))
    (hsorted : ∀ i bound, NewestFirst (rows i bound))
    (hmem : ∀ i (bound : Option (Time ×ₗ Uuid)) r, r ∈ rows i (bound.map ofLex) ↔
      Matches (dbs i) r ∧ Keyset.Below bound r.place) :
    Keyset.Serves Row.place limit (fun i => Matches (dbs i)) (Means app)
      (fun i cursor => page cursor (envs i) (dbs i)) := by
  refine ⟨rfl, fun i cursor bound hmeans => ⟨_, _, hpage i cursor _ hmeans,
    Keyset.isPage_take limit (hsorted i _) (hmem i bound), fun hlen => ?_, fun hlen r hr => ?_⟩⟩
  · rw [nextCursor, List.length_map, if_neg hlen]
  · have hlisted := ((hmem i bound r).1 (List.mem_of_mem_take (List.mem_of_getLast? hr))).1
    obtain ⟨ht, hid⟩ := hstamped i r (hrow i r hlisted)
    refine ⟨encodeCursor (.utc r.stamp.1) r.stamp.2, ?_, ?_⟩
    · rw [nextCursor, List.length_map, if_pos hlen, List.getLast?_map, hr]
      rfl
    · rw [nextCursor, List.length_map, if_pos hlen, List.getLast?_map, hr]
      exact cursorBound_encodeCursor app ht hid

/-! ## All pages -/

theorem Growing.get_of_le {dbs : Nat → Database} (h : Growing dbs) {i n : Nat} (hin : i ≤ n)
    {k : Key} {r : Row} (hr : (dbs i).get k = some r) : (dbs n).get k = some r := by
  induction hin with
  | refl => exact hr
  | step _ ih => exact h.grows _ _ _ ih

/-- A listing that is served page by page lists all. -/
theorem listsAll_of_serves (app : App) {limit : Nat} (hlimit : 0 < limit)
    {page : Option Str → Env Row Key → Database → Option (List Row × Option Str)}
    {Matches : Database → Row → Prop} (hrow : ∀ db r, Matches db r → r ∈ db.rows)
    (hkey : ∀ db a b, Matches db a → Matches db b → a.stamp.2 = b.stamp.2 → a.key = b.key)
    (hserves : ∀ (envs : Nat → Env Row Key) (dbs : Nat → Database), (∀ i, Stamped (dbs i)) →
      Keyset.Serves Row.place limit (fun i => Matches (dbs i)) (Means app)
        (fun i cursor => page cursor (envs i) (dbs i))) :
    ListsAll page Matches := by
  have hgrown : ∀ (envs : Nat → Env Row Key) (dbs : Nat → Database), Growing dbs →
      ∃ n pages, Keyset.follow (fun i cursor => page cursor (envs i) (dbs i)) n 0 none =
        some pages ∧ NewestFirst pages.flatten ∧
        (∀ r, (∀ i, Matches (dbs i) r) → r ∈ pages.flatten) ∧
        ∀ r ∈ pages.flatten, ∃ i, Matches (dbs i) r := by
    intro envs dbs hdbs
    obtain ⟨n, hn⟩ := hdbs.finite
    -- every key that is ever listed is one of the last store
    have hkeys : ∀ i r, Matches (dbs i) r → r.place ∈ ((dbs n).rows.map Row.place).toFinset := by
      intro i r hr
      have hget := Db.get_of_mem (hrow _ r hr)
      rw [List.mem_toFinset]
      refine List.mem_map_of_mem ?_
      rcases Nat.le_total i n with hin | hin
      · exact Db.mem_of_get (hdbs.get_of_le hin hget)
      · rw [← hn i hin]
        exact Db.mem_of_get hget
    obtain ⟨m, pages, hrun, hcovers⟩ := (hserves envs dbs hdbs.stamped).exists_follow hlimit hkeys
    refine ⟨m, pages, hrun, hcovers.sorted, fun r hr => ?_, hcovers.listed⟩
    obtain ⟨a, ha, hplace⟩ := hcovers.complete r.place (fun b hb => by cases hb)
      fun i => ⟨r, hr i, rfl⟩
    -- the row that was listed at the place of `r` is `r`
    obtain ⟨i, hai⟩ := hcovers.listed a ha
    have hstamp : a.stamp = r.stamp := toLex.injective hplace
    have hsame : a.key = r.key := hkey _ a r hai (hr i) (by rw [hstamp])
    have hget := Db.get_of_mem (hrow _ a hai)
    have hget' := Db.get_of_mem (hrow _ r (hr i))
    rw [schema_key] at hget hget'
    rw [hsame, hget'] at hget
    rw [Option.some.inj hget]
    exact ha
  refine ⟨fun envs db hdb => ?_, hgrown⟩
  obtain ⟨n, pages, hrun, hsorted, hall, honly⟩ := hgrown envs (fun _ => db)
    ⟨fun _ _ _ h => h, ⟨0, fun _ _ => rfl⟩, fun _ => hdb⟩
  exact ⟨n, pages, hrun, hsorted, fun r => ⟨fun hr => (honly r hr).elim fun _ h => h,
    fun hr => hall r fun _ => hr⟩⟩

/-! ## The three listings -/

variable {app : App} {limit : Nat} {cursor : Option Str} {bound : Option (Time × Uuid)}
  {lower : Char → Char}

theorem below_iff {r : Row} {bound : Option (Time ×ₗ Uuid)} :
    Keyset.Below bound r.place ↔ behindCursor (bound.map ofLex) r.stamp.1 r.stamp.2 = true := by
  cases bound with
  | none => simp [Keyset.Below, behindCursor]
  | some b =>
    have hb : Keyset.Below (some b) r.place ↔ r.place < toLex (ofLex b) :=
      ⟨fun h => h b rfl, fun h c hc => by rw [← Option.some.inj hc]; exact h⟩
    rw [hb, place_lt_iff]
    simp [behindCursor]

theorem newerFirst_iff {a b : Row} :
    newerFirst a.stamp.1 a.stamp.2 b.stamp.1 b.stamp.2 = true ↔ b.place ≤ a.place := by
  rw [place_le_iff, newerFirst, Bool.or_eq_true, Bool.and_eq_true, decide_eq_true_eq,
    decide_eq_true_eq, decide_eq_true_eq]
  exact or_congr Iff.rfl (and_congr eq_comm Iff.rfl)

theorem cursorBound_cases (app : App) (cursor : Option Str) :
    (∃ bound, cursorBound app cursor = pure bound) ∨ ∃ e, cursorBound app cursor = .throw e := by
  unfold cursorBound
  split
  · exact Or.inl ⟨_, rfl⟩
  · exact Or.inl ⟨_, rfl⟩
  · split
    · dsimp only
      split
      · exact Or.inl ⟨_, rfl⟩
      · exact Or.inr ⟨_, rfl⟩
    all_goals exact Or.inr ⟨_, rfl⟩

/-- A listing that fails for every bound has no page. -/
theorem fetched_of_throw {α : Type} {row : α → Row}
    {x : Option (Time × Uuid) → Handler (List α × Option Str)}
    (hx : ∀ bound, ∃ e, x bound = .throw e) (env : Env Row Key) (db : Database) :
    fetched row (cursorBound app cursor >>= x) env db = none := by
  rcases cursorBound_cases app cursor with ⟨bound, hbound⟩ | ⟨e, hthrow⟩
  · obtain ⟨e, he⟩ := hx bound
    have hrun : cursorBound app cursor >>= x = .throw e := by
      rw [hbound]
      exact he
    rw [hrun]
    rfl
  · rw [hthrow]
    rfl

theorem jobsOf_map {rows : List Row} (h : ∀ r ∈ rows, ∃ j, r = .job j) :
    (jobsOf rows).map Row.job = rows := by
  induction rows with
  | nil => rfl
  | cons r rows ih =>
    obtain ⟨j, rfl⟩ := h _ (List.mem_cons_self ..)
    have hrest := ih fun r hr => h r (List.mem_cons_of_mem _ hr)
    exact congrArg (Row.job _ :: ·) hrest

theorem usersOf_map {rows : List Row} (h : ∀ r ∈ rows, ∃ u, r = .user u) :
    (usersOf rows).map Row.user = rows := by
  induction rows with
  | nil => rfl
  | cons r rows ih =>
    obtain ⟨u, rfl⟩ := h _ (List.mem_cons_self ..)
    have hrest := ih fun r hr => h r (List.mem_cons_of_mem _ hr)
    exact congrArg (Row.user _ :: ·) hrest

/-- A row of a page of jobs is a job. -/
theorem holds_jobsPage {userId : Uuid} {status : Option Str} {r : Row} :
    (Cond.jobsPage userId status bound).holds r = true ↔
      ∃ j, r = .job j ∧ j.passes userId status = true ∧
        behindCursor bound r.stamp.1 r.stamp.2 = true := by
  cases r <;> simp [Cond.holds, Row.stamp]

theorem holds_usersPage {status : Option Str} {query : Str} {r : Row} :
    (Cond.usersPage lower status query bound).holds r = true ↔
      ∃ u, r = .user u ∧ u.passes lower status query = true ∧
        behindCursor bound r.stamp.1 r.stamp.2 = true := by
  cases r <;> simp [Cond.holds, Row.stamp]

theorem holds_auditPage {f : AuditFilter} {r : Row} :
    (Cond.auditPage f bound).holds r = true ↔
      ∃ a, r = .auditLog a ∧ a.passes f = true ∧
        behindCursor bound r.stamp.1 r.stamp.2 = true := by
  cases r <;> simp [Cond.holds, Row.stamp]

theorem sendTexts_of_plain {texts : List Str} (h : texts.all plainText = true) :
    sendTexts texts = pure () :=
  if_pos h

theorem sendTexts_of_not_plain {texts : List Str} (h : texts.all plainText = false) :
    sendTexts texts = .throw (.database .nulCharacter) := by
  rw [sendTexts, h]
  rfl

theorem fetched_listJobsPage (owner : User) {status : Option Str}
    (htexts : status.toList.all plainText = true) (env : Env Row Key) (db : Database)
    (h : cursorBound app cursor = pure bound) :
    fetched Row.job (listJobsPage app owner status cursor limit) env db =
      some ((matching db (.jobsPage owner.id status bound)).take limit, nextCursor limit
        (((matching db (.jobsPage owner.id status bound)).take limit).map Row.stamp)) := by
  have hrows : (jobsOf (matching db (.jobsPage owner.id status bound))).map Row.job =
      matching db (.jobsPage owner.id status bound) :=
    jobsOf_map fun r hr => (holds_jobsPage.1 (mem_matching.1 hr).2).imp fun _ hj => hj.1
  rw [listJobsPage, h]
  simp only [listJobsForUser, sendTexts_of_plain htexts]
  change some (((jobsOf (matching db (.jobsPage owner.id status bound))).take limit).map Row.job,
    nextCursor limit (((jobsOf (matching db (.jobsPage owner.id status bound))).take limit).map
      (Row.stamp ∘ Row.job))) = _
  rw [← List.map_map, List.map_take, hrows]

theorem fetched_listUsersPage {status emailQuery : Option Str}
    (htexts : (status.toList ++ emailQuery.toList).all plainText = true) (env : Env Row Key)
    (db : Database) (h : cursorBound app cursor = pure bound) :
    fetched Row.user (listUsersPage app status emailQuery cursor limit) env db =
      some ((matching db (.usersPage app.lower status (emailQuery.getD []) bound)).take limit,
        nextCursor limit (((matching db (.usersPage app.lower status (emailQuery.getD [])
          bound)).take limit).map Row.stamp)) := by
  have hrows : (usersOf (matching db (.usersPage app.lower status (emailQuery.getD []) bound))).map
      Row.user = matching db (.usersPage app.lower status (emailQuery.getD []) bound) :=
    usersOf_map fun r hr => (holds_usersPage.1 (mem_matching.1 hr).2).imp fun _ hu => hu.1
  rw [listUsersPage, h]
  simp only [listFilteredUsers, sendTexts_of_plain htexts]
  change some (((usersOf (matching db (.usersPage app.lower status (emailQuery.getD [])
      bound))).take limit).map Row.user,
    nextCursor limit (((usersOf (matching db (.usersPage app.lower status (emailQuery.getD [])
      bound))).take limit).map (Row.stamp ∘ Row.user))) = _
  rw [← List.map_map, List.map_take, hrows]

/-- The outer join of one row. -/
def joinedRow (users : List Row) (query : Str) : Row → Option (AuditLog × Option Str)
  | .auditLog a =>
    match joinedEmail users a with
    | some email => some (a, some email)
    | none => if query = [] then some (a, none) else none
  | _ => none

/-- The outer join keeps the row. -/
def keeps (users : List Row) (query : Str) : Row → Bool
  | .auditLog a => (joinedEmail users a).isSome || decide (query = [])
  | _ => false

theorem joinedRow_map (users : List Row) (query : Str) (rows : List Row) :
    (rows.filterMap (joinedRow users query)).map (fun x => Row.auditLog x.1) =
      rows.filter (keeps users query) := by
  rw [List.map_filterMap, ← List.filterMap_eq_filter]
  refine List.filterMap_congr fun r _ => ?_
  cases r with
  | auditLog a =>
    cases hemail : joinedEmail users a with
    | some email => simp [joinedRow, keeps, hemail]
    | none => by_cases hq : query = [] <;> simp [joinedRow, keeps, hemail, hq, Option.guard]
  | _ => rfl

theorem fetched_listAuditPage {f : AuditFilter} (htexts : f.texts.all plainText = true)
    (env : Env Row Key) (db : Database) (h : cursorBound app cursor = pure bound) :
    fetched (fun x => Row.auditLog x.1) (listAuditPage app f cursor limit) env db =
      some (((matching db (.auditPage f bound)).filter
          (keeps (matching db (.usersLike app.lower (f.userEmail.getD [])))
            (f.userEmail.getD []))).take limit,
        nextCursor limit ((((matching db (.auditPage f bound)).filter
          (keeps (matching db (.usersLike app.lower (f.userEmail.getD [])))
            (f.userEmail.getD []))).take limit).map Row.stamp)) := by
  rw [listAuditPage, h, ← joinedRow_map, ← List.map_take, List.map_map]
  simp only [listAudit, sendTexts_of_plain htexts]
  rfl

/-- An audit row with an e-mail address that fits is kept, and every one if none is asked
for. -/
theorem keeps_iff (db : Database) {query : Str} {a : AuditLog} :
    keeps (matching db (.usersLike lower query)) query (.auditLog a) = true ↔
      query = [] ∨ ∃ u, Row.user u ∈ db.rows ∧ a.userId = some u.id ∧
        ilike lower ('%' :: query ++ ['%']) u.email = true := by
  rw [keeps, Bool.or_eq_true, decide_eq_true_eq, or_comm]
  refine or_congr Iff.rfl ?_
  rw [joinedEmail, List.findSome?_isSome_iff]
  constructor
  · rintro ⟨r, hr, hemail⟩
    obtain ⟨hrow, hh⟩ := mem_matching.1 hr
    cases r with
    | user u =>
      dsimp only at hemail
      split at hemail
      · rename_i hu
        exact ⟨u, hrow, hu, hh⟩
      · cases hemail
    | _ => cases hemail
  · rintro ⟨u, hrow, hu, hlike⟩
    refine ⟨.user u, mem_matching.2 ⟨hrow, hlike⟩, ?_⟩
    dsimp only
    rw [if_pos hu]
    rfl

/-- A listing is read by one clause on the rows of one table below a cursor, in the order of
their stamps; what the outer join drops is left out. -/
theorem listsAll_of_clause (app : App) (hlimit : 0 < limit) (P : Row → Prop)
    (table : Uuid → Key) (w : Option (Time × Uuid) → Cond) (keep : Database → Row → Bool)
    {page : Option Str → Env Row Key → Database → Option (List Row × Option Str)}
    (hkey : ∀ r, P r → r.key = table r.stamp.2)
    (hholds : ∀ bound r, (w bound).holds r = true ↔
      P r ∧ behindCursor bound r.stamp.1 r.stamp.2 = true)
    (hbefore : ∀ bound a b, P a → P b →
      (w bound).before a b = newerFirst a.stamp.1 a.stamp.2 b.stamp.1 b.stamp.2)
    (hpage : ∀ cursor bound env db, cursorBound app cursor = pure bound →
      page cursor env db = some (((matching db (w bound)).filter (keep db)).take limit,
        nextCursor limit ((((matching db (w bound)).filter (keep db)).take limit).map Row.stamp))) :
    ListsAll page (fun db r => r ∈ db.rows ∧ P r ∧ keep db r = true) := by
  refine listsAll_of_serves app hlimit (fun db r hr => hr.1)
    (fun db a b ha hb hstamp => by rw [hkey a ha.2.1, hkey b hb.2.1, hstamp])
    fun envs dbs hstamped => serves_of_pages app
      (fun db r => r ∈ db.rows ∧ P r ∧ keep db r = true)
      (fun i bound => (matching (dbs i) (w bound)).filter (keep (dbs i))) hstamped
      (fun i r hr => hr.1) (fun i cursor bound hb => hpage cursor bound _ _ hb)
      (fun i bound => (newestFirst_matching _ (fun a b ha hb => ?_)
        fun a b ha hb hstamp => ?_).sublist List.filter_sublist)
      fun i bound r => ?_
  · rw [hbefore bound a b ((hholds bound a).1 ha).1 ((hholds bound b).1 hb).1]
    exact newerFirst_iff
  · rw [hkey a ((hholds bound a).1 ha).1, hkey b ((hholds bound b).1 hb).1, hstamp]
  · rw [List.mem_filter, mem_matching, schema_holds, hholds, below_iff]
    constructor
    · rintro ⟨⟨hrow, hp, hb⟩, hkeep⟩
      exact ⟨⟨hrow, hp, hkeep⟩, hb⟩
    · rintro ⟨⟨hrow, hp, hkeep⟩, hb⟩
      exact ⟨⟨hrow, hp, hb⟩, hkeep⟩

/-- What the rows of a listing are can be said in other words. -/
theorem ListsAll.congr
    {page : Option Str → Env Row Key → Database → Option (List Row × Option Str)}
    {Matches Matches' : Database → Row → Prop} (h : ListsAll page Matches)
    (hiff : ∀ db r, Matches db r ↔ Matches' db r) : ListsAll page Matches' := by
  have he : Matches = Matches' := funext fun db => funext fun r => propext (hiff db r)
  exact he ▸ h

theorem jobs_listed (owner : User) (status : Option Str) (hlimit : 0 < limit) :
    Lists status.toList
      (fun cursor => fetched Row.job (listJobsPage app owner status cursor limit))
      (MatchesJobs owner status) := by
  refine ⟨fun htexts => (listsAll_of_clause app hlimit
    (fun r => ∃ j, r = .job j ∧ j.passes owner.id status = true) .job
    (.jobsPage owner.id status) (fun _ _ => true) (fun r hr => ?_) (fun bound r => ?_)
    (fun bound a b ha hb => ?_) fun cursor bound env db hb => ?_).congr fun db r => ?_,
    fun htexts cursor env db =>
      fetched_of_throw (fun bound => ⟨.database .nulCharacter, ?_⟩) env db⟩
  · obtain ⟨j, rfl, -⟩ := hr
    rfl
  · rw [holds_jobsPage]
    grind
  · obtain ⟨j, rfl, -⟩ := ha
    obtain ⟨j', rfl, -⟩ := hb
    rfl
  · rw [List.filter_true]
    exact fetched_listJobsPage owner htexts env db hb
  · rw [MatchesJobs, and_iff_left rfl]
  · rw [listJobsForUser, sendTexts_of_not_plain htexts]
    rfl

theorem users_listed (status emailQuery : Option Str) (hlimit : 0 < limit) :
    Lists (status.toList ++ emailQuery.toList)
      (fun cursor => fetched Row.user (listUsersPage app status emailQuery cursor limit))
      (MatchesUsers app.lower status emailQuery) := by
  refine ⟨fun htexts => (listsAll_of_clause app hlimit
    (fun r => ∃ u, r = .user u ∧ u.passes app.lower status (emailQuery.getD []) = true) .user
    (.usersPage app.lower status (emailQuery.getD [])) (fun _ _ => true) (fun r hr => ?_)
    (fun bound r => ?_) (fun bound a b ha hb => ?_) fun cursor bound env db hb => ?_).congr
      fun db r => ?_,
    fun htexts cursor env db =>
      fetched_of_throw (fun bound => ⟨.database .nulCharacter, ?_⟩) env db⟩
  · obtain ⟨u, rfl, -⟩ := hr
    rfl
  · rw [holds_usersPage]
    grind
  · obtain ⟨u, rfl, -⟩ := ha
    obtain ⟨u', rfl, -⟩ := hb
    rfl
  · rw [List.filter_true]
    exact fetched_listUsersPage htexts env db hb
  · rw [MatchesUsers, and_iff_left rfl]
  · rw [listFilteredUsers, sendTexts_of_not_plain htexts]
    rfl

theorem auditLogs_listed (f : AuditFilter) (hlimit : 0 < limit) :
    Lists f.texts (fun cursor => fetched (fun x => Row.auditLog x.1)
      (listAuditPage app f cursor limit)) (MatchesAudit app.lower f) := by
  refine ⟨fun htexts => (listsAll_of_clause app hlimit
    (fun r => ∃ a, r = .auditLog a ∧ a.passes f = true) .auditLog (.auditPage f)
    (fun db => keeps (matching db (.usersLike app.lower (f.userEmail.getD [])))
      (f.userEmail.getD [])) (fun r hr => ?_) (fun bound r => ?_) (fun bound a b ha hb => ?_)
      fun cursor bound env db hb => fetched_listAuditPage htexts env db hb).congr fun db r => ?_,
    fun htexts cursor env db =>
      fetched_of_throw (fun bound => ⟨.database .nulCharacter, ?_⟩) env db⟩
  · obtain ⟨a, rfl, -⟩ := hr
    rfl
  · rw [holds_auditPage]
    grind
  · obtain ⟨a, rfl, -⟩ := ha
    obtain ⟨a', rfl, -⟩ := hb
    rfl
  · refine and_congr Iff.rfl ⟨?_, ?_⟩
    · rintro ⟨⟨a, rfl, hp⟩, hkeeps⟩
      exact ⟨a, rfl, hp, (keeps_iff db).1 hkeeps⟩
    · rintro ⟨a, rfl, hp, hemail⟩
      exact ⟨⟨a, rfl, hp⟩, (keeps_iff db).2 hemail⟩
  · rw [listAudit, sendTexts_of_not_plain htexts]
    rfl

/-- **Cursor pagination loses and repeats nothing**, in each of the three listings. -/
theorem listings_lose_and_repeat_nothing (app : App) {limit : Nat} (hlimit : 1 ≤ limit) :
    (∀ owner status, Lists status.toList
      (fun cursor => fetched Row.job (listJobsPage app owner status cursor limit))
      (MatchesJobs owner status)) ∧
    (∀ status emailQuery, Lists (status.toList ++ emailQuery.toList)
      (fun cursor => fetched Row.user (listUsersPage app status emailQuery cursor limit))
      (MatchesUsers app.lower status emailQuery)) ∧
    ∀ f, Lists f.texts
      (fun cursor => fetched (fun x => Row.auditLog x.1) (listAuditPage app f cursor limit))
      (MatchesAudit app.lower f) :=
  ⟨fun owner status => jobs_listed owner status hlimit,
    fun status emailQuery => users_listed status emailQuery hlimit,
    fun f => auditLogs_listed f hlimit⟩

/-- Two jobs of one account, submitted at the same time. -/
def tiedJobsDb : Database :=
  ((Db.empty.insert (.user sampleUser)).insert (.job sampleJob)).insert
    (.job { sampleJob with id := 4 })

theorem listings_lose_and_repeat_nothing_at_tiedJobsDb :
    ∃ n pages, Keyset.follow (fun _ cursor => fetched Row.job
        (listJobsPage plainApp sampleUser none cursor 1) ⟨[], [], 0, 0, 0⟩ tiedJobsDb) n 0 none =
      some pages ∧ NewestFirst pages.flatten ∧
      ∀ r, r ∈ pages.flatten ↔ MatchesJobs sampleUser none tiedJobsDb r :=
  (((listings_lose_and_repeat_nothing plainApp le_rfl).1 sampleUser none).sent rfl).whole
    (fun _ => ⟨[], [], 0, 0, 0⟩) tiedJobsDb (by unfold Stamped; decide +kernel)

end GpuNetwork
