import Mathlib.Data.Bool.AllAny
import GpuNetwork.ControlPlane.Listings

/-!
# The search by e-mail address

The e-mail query of `list_users` and `list_audit_events`, against the accounts whose address
contains it up to letter case.  Which letters are the same is up to the locale of the database.

* `ilike_eq_like` — the matcher of the store is that of `LIKE`, up to letter case.
* `ListsAll.matches_iff` — the pages of a listing determine its rows.
* `SearchesSubstring`, `search_is_substring_iff` — when the query is searched as it stands.
-/

namespace GpuNetwork

open ReadCommitted Text

variable {app : App} {lower : Char → Char}

/-- A locale that folds letters only leaves the characters of the pattern language alone. -/
theorem ilike_eq_like (hlower : Like.SparesMeta lower) (p s : Str) :
    ilike lower p s = Like.like (sameLetter lower) p s :=
  Like.like_map hlower p s

/-! ## What the pages say -/

/-- The pages of a listing determine its rows. -/
theorem ListsAll.matches_iff
    {page : Option Str → Env Row Key → Database → Option (List Row × Option Str)}
    {Matches Matches' : Database → Row → Prop} (h : ListsAll page Matches)
    (h' : ListsAll page Matches') {db : Database} (hdb : Stamped db) (r : Row) :
    Matches db r ↔ Matches' db r := by
  obtain ⟨n, pages, hrun, -, hmem⟩ := h.whole (fun _ => ⟨[], [], 0, 0, 0⟩) db hdb
  obtain ⟨m, pages', hrun', -, hmem'⟩ := h'.whole (fun _ => ⟨[], [], 0, 0, 0⟩) db hdb
  rw [← hmem, ← hmem', Keyset.follow_unique hrun hrun']

/-- A listing whose pages come to an end on the empty store has a page. -/
theorem ListsAll.exists_page
    {page : Option Str → Env Row Key → Database → Option (List Row × Option Str)}
    {Matches : Database → Row → Prop} (h : ListsAll page Matches) :
    ∃ cursor env db, page cursor env db ≠ none := by
  have hstamped : Stamped Db.empty := fun r hr => by cases hr
  obtain ⟨n, pages, hrun, -⟩ := h.whole (fun _ => ⟨[], [], 0, 0, 0⟩) Db.empty hstamped
  refine ⟨none, ⟨[], [], 0, 0, 0⟩, Db.empty, fun hnone => ?_⟩
  cases n with
  | zero => cases hrun
  | succ n =>
    rw [Keyset.follow, hnone] at hrun
    cases hrun

/-- What the filters of a listing and its rows are can be said in other words. -/
theorem Lists.congr
    {page : Option Str → Env Row Key → Database → Option (List Row × Option Str)}
    {Matches Matches' : Database → Row → Prop} {texts texts' : List Str}
    (h : Lists texts page Matches) (htexts : texts.all plainText = texts'.all plainText)
    (hiff : ∀ db r, Matches db r ↔ Matches' db r) : Lists texts' page Matches' :=
  ⟨fun hall => (h.sent (htexts.trans hall)).congr hiff, fun hall => h.refused (htexts.trans hall)⟩

/-- The accounts of a status whose e-mail address contains the query up to letter case. -/
def FoundUsers (lower : Char → Char) (status : Option Str) (query : Str) (db : Database)
    (r : Row) : Prop :=
  r ∈ db.rows ∧ ∃ u, r = .user u ∧ status.all (fun s => decide (u.status.text = s)) = true ∧
    Like.Within (sameLetter lower) query u.email

/-- The audit rows that pass the other filters, of the accounts whose e-mail address contains
the query up to letter case. -/
def FoundEvents (lower : Char → Char) (f : AuditFilter) (query : Str) (db : Database)
    (r : Row) : Prop :=
  r ∈ db.rows ∧ ∃ a, r = .auditLog a ∧ a.passes f = true ∧
    ∃ u, .user u ∈ db.rows ∧ a.userId = some u.id ∧ Like.Within (sameLetter lower) query u.email

/-- Over all pages the two listings have exactly the rows whose e-mail address contains the
query, whatever else is asked for.  Only a NUL in what else is asked for leaves no page. -/
structure SearchesSubstring (app : App) (query : Str) : Prop where
  users : ∀ status limit, 1 ≤ limit → Lists status.toList
    (fun cursor => fetched Row.user (listUsersPage app status (some query) cursor limit))
    (FoundUsers app.lower status query)
  events : ∀ f limit, 1 ≤ limit → f.userEmail = some query →
    Lists (f.eventType.toList ++ f.ipAddress.toList)
      (fun cursor => fetched (fun x => Row.auditLog x.1) (listAuditPage app f cursor limit))
      (FoundEvents app.lower f query)

variable {query : Str}

theorem ilike_iff_within (hlower : Like.SparesMeta lower) (h : Like.Literal query)
    (email : Str) : ilike lower ('%' :: query ++ ['%']) email = true ↔
      Like.Within (sameLetter lower) query email := by
  rw [ilike_eq_like hlower]
  exact Like.like_of_literal_within h email

theorem passes_iff (hne : query ≠ []) (status : Option Str) (u : User) :
    u.passes lower status query = true ↔
      status.all (fun s => decide (u.status.text = s)) = true ∧
        ilike lower ('%' :: query ++ ['%']) u.email = true := by
  rw [User.passes, Bool.and_eq_true, Bool.or_eq_true, List.isEmpty_iff, or_iff_right hne]

/-- A query without characters of the pattern language is searched as it stands. -/
theorem searches_of_literal (hlower : Like.SparesMeta app.lower) (hne : query ≠ [])
    (hplain : plainText query = true) (h : Like.Literal query) : SearchesSubstring app query := by
  refine ⟨fun status limit hlimit => ?_, fun f limit hlimit hf => ?_⟩
  · refine (users_listed status (some query) hlimit).congr (by simp [hplain]) fun db r => ?_
    refine and_congr Iff.rfl (exists_congr fun u => and_congr Iff.rfl ?_)
    rw [Option.getD_some, passes_iff hne, ilike_iff_within hlower h]
  · refine (auditLogs_listed f hlimit).congr (by simp [AuditFilter.texts, hf, hplain])
      fun db r => ?_
    refine and_congr Iff.rfl (exists_congr fun a => and_congr Iff.rfl (and_congr Iff.rfl ?_))
    rw [hf, Option.getD_some, or_iff_right hne]
    refine exists_congr fun u => and_congr Iff.rfl (and_congr Iff.rfl ?_)
    exact ilike_iff_within hlower h u.email

/-- A query that is searched is sent. -/
theorem plain_of_searches (h : SearchesSubstring app query) : plainText query = true := by
  by_contra hplain
  rw [Bool.not_eq_true] at hplain
  have hlisted : Lists _ (fun cursor => fetched Row.user
      (listUsersPage app none (some query) cursor 1)) _ :=
    users_listed none (some query) Nat.one_pos
  obtain ⟨cursor, env, db, hpage⟩ := ((h.users none 1 le_rfl).sent rfl).exists_page
  exact hpage (hlisted.refused (by simp [hplain]) cursor env db)

/-- A store with one account. -/
def accountDb (email : Str) : Database := Db.empty.insert (.user { sampleUser with email })

theorem rows_accountDb (email : Str) :
    (accountDb email).rows = [.user { sampleUser with email }] := rfl

theorem stamped_accountDb (email : Str) : Stamped (accountDb email) := by
  intro r hr
  rw [rows_accountDb, List.mem_singleton] at hr
  subst hr
  have hstamp : Text.InRange sampleUser.createdAt ∧ sampleUser.id < 2 ^ 128 := by decide
  exact hstamp

/-- On a store with one account the search is the pattern. -/
theorem like_of_searches (hlower : Like.SparesMeta app.lower) (hne : query ≠ [])
    (h : SearchesSubstring app query) (email : Str) :
    Like.like (sameLetter app.lower) ('%' :: query ++ ['%']) email = true ↔
      Like.Within (sameLetter app.lower) query email := by
  have hlisted : Lists _ (fun cursor => fetched Row.user
      (listUsersPage app none (some query) cursor 1)) _ :=
    users_listed none (some query) Nat.one_pos
  have hsent : ((none : Option Str).toList ++ (some query).toList).all plainText = true := by
    simp [plain_of_searches h]
  have hiff := (hlisted.sent hsent).matches_iff ((h.users none 1 le_rfl).sent rfl)
    (stamped_accountDb email) (.user { sampleUser with email })
  rw [← ilike_eq_like hlower]
  constructor
  · intro hlike
    have hmatch : MatchesUsers app.lower none (some query) (accountDb email)
        (.user { sampleUser with email }) :=
      ⟨by simp [rows_accountDb], _, rfl, (passes_iff hne none _).2 ⟨rfl, hlike⟩⟩
    obtain ⟨-, u, hu, -, hwithin⟩ := hiff.1 hmatch
    cases hu
    exact hwithin
  · intro hwithin
    have hfound : FoundUsers app.lower none query (accountDb email)
        (.user { sampleUser with email }) :=
      ⟨by simp [rows_accountDb], _, rfl, rfl, hwithin⟩
    obtain ⟨-, u, hu, hpasses⟩ := hiff.2 hfound
    cases hu
    exact ((passes_iff hne none _).1 hpasses).2

/-- **The search is a substring filter exactly for the queries without `%`, `_`, backslash and
NUL**, in any locale that leaves the first three alone. -/
theorem search_is_substring_iff (app : App) (hlower : Like.SparesMeta app.lower) (query : Str)
    (hne : query ≠ []) : SearchesSubstring app query ↔
      ∀ c ∈ query, c ≠ '%' ∧ c ≠ '_' ∧ c ≠ '\\' ∧ c ≠ '\x00' := by
  have hcond : (∀ c ∈ query, c ≠ '%' ∧ c ≠ '_' ∧ c ≠ '\\' ∧ c ≠ '\x00') ↔
      Like.Literal query ∧ plainText query = true := by
    rw [Like.Literal, plainText_iff]
    constructor
    · exact fun h => ⟨fun c hc => Like.isMeta_eq_false_iff.2
        ⟨(h c hc).1, (h c hc).2.1, (h c hc).2.2.1⟩, fun hnul => (h _ hnul).2.2.2 rfl⟩
    · rintro ⟨hliteral, hnul⟩ c hc
      obtain ⟨hpercent, hunderscore, hslash⟩ := Like.isMeta_eq_false_iff.1 (hliteral c hc)
      exact ⟨hpercent, hunderscore, hslash, fun h => hnul (h ▸ hc)⟩
  rw [hcond]
  constructor
  · intro h
    refine ⟨?_, plain_of_searches h⟩
    have hfolds : ∀ {c d : Char}, Like.isMeta c = true → c ≠ d →
        sameLetter app.lower c d = false := by
      intro c d hc hcd
      rw [sameLetter, decide_eq_false_iff_not, hlower c (Or.inl hc), eq_comm, hlower.eq_iff hc]
      exact hcd.symm
    exact (Like.like_iff_within 'a' (fun c => decide_eq_true rfl) (hfolds rfl (by decide))
      (hfolds rfl (by decide)) query).1 (like_of_searches hlower hne h)
  · rintro ⟨hliteral, hplain⟩
    exact searches_of_literal hlower hne hplain hliteral

/-! ## Locales -/

theorem isMeta_false_of_toNat {c : Char} (h : c.toNat ≠ 37 ∧ c.toNat ≠ 95 ∧ c.toNat ≠ 92) :
    Like.isMeta c = false :=
  Like.isMeta_eq_false_iff.2
    ⟨fun hc => h.1 (hc ▸ rfl), fun hc => h.2.1 (hc ▸ rfl), fun hc => h.2.2 (hc ▸ rfl)⟩

/-- It is enough that a character which is changed is a letter that becomes a letter. -/
theorem sparesMeta_of_changed {f : Char → Char}
    (h : ∀ c, f c = c ∨ (Like.isMeta c = false ∧ Like.isMeta (f c) = false)) :
    Like.SparesMeta f := by
  intro c hmeta
  rcases h c with hsame | ⟨hc, hfc⟩
  · exact hsame
  · rw [hc, hfc] at hmeta
    simp at hmeta

theorem toLower_changed (c : Char) :
    c.toLower = c ∨ (Like.isMeta c = false ∧ Like.isMeta c.toLower = false) := by
  by_cases h : c.val ≥ 'A'.val ∧ c.val ≤ 'Z'.val
  · have hlow : 65 ≤ c.toNat := h.1
    have hhigh : c.toNat ≤ 90 := h.2
    have hnat : c.toLower.toNat = c.toNat + 32 := by
      refine (congrArg Char.toNat (dif_pos h)).trans ?_
      change (c.toNat + 32) % 4294967296 = c.toNat + 32
      omega
    exact Or.inr ⟨isMeta_false_of_toNat (by omega), isMeta_false_of_toNat (by omega)⟩
  · exact Or.inl (dif_neg h)

theorem sparesMeta_toLower : Like.SparesMeta Char.toLower := sparesMeta_of_changed toLower_changed

/-- The lower case of Latin 1. -/
def latinLower (c : Char) : Char :=
  if 0xC0 ≤ c.toNat ∧ c.toNat ≤ 0xDE ∧ c.toNat ≠ 0xD7 then Char.ofNat (c.toNat + 32) else c.toLower

example : ilike latinLower "%é%".toList "É@example.com".toList = true := by decide +kernel

theorem sparesMeta_latinLower : Like.SparesMeta latinLower := by
  refine sparesMeta_of_changed fun c => ?_
  by_cases h : 0xC0 ≤ c.toNat ∧ c.toNat ≤ 0xDE ∧ c.toNat ≠ 0xD7
  · have hvalid : (c.toNat + 32).isValidChar := Or.inl (by omega)
    have hnat : (latinLower c).toNat = c.toNat + 32 := by
      rw [latinLower, if_pos h, Char.ofNat, dif_pos hvalid]
      rfl
    exact Or.inr ⟨isMeta_false_of_toNat (by omega), isMeta_false_of_toNat (by omega)⟩
  · rw [latinLower, if_neg h]
    exact toLower_changed c

theorem search_is_substring_at_latinLower :
    SearchesSubstring { plainApp with lower := latinLower } "é".toList ↔
      ∀ c ∈ "é".toList, c ≠ '%' ∧ c ≠ '_' ∧ c ≠ '\\' ∧ c ≠ '\x00' :=
  search_is_substring_iff _ sparesMeta_latinLower "é".toList (by decide)

/-- The query `a_b` finds `axb@example.com`. -/
theorem underscore_finds_another_address : ¬ SearchesSubstring plainApp "a_b".toList := by
  intro h
  have hlike : Like.like (sameLetter Char.toLower) ('%' :: "a_b".toList ++ ['%'])
      "axb@example.com".toList = true := by decide +kernel
  obtain ⟨a, m, b, hsplit, hm⟩ := (like_of_searches sparesMeta_toLower (by decide) h _).1 hlike
  have hquery : "a_b".toList = ['a', '_', 'b'] := by decide
  rw [hquery] at hm
  -- the part has an underscore, and the address has none
  have hno : ∀ d ∈ "axb@example.com".toList, sameLetter Char.toLower '_' d = false :=
    List.all_iff_forall_prop.1 (by decide)
  cases hm with
  | cons _ hm =>
    cases hm with
    | cons hsame _ =>
      rename_i d _ _
      have hd : sameLetter Char.toLower '_' d = false := hno d (by simp [hsplit])
      rw [show plainApp.lower = Char.toLower from rfl, hd] at hsame
      cases hsame

end GpuNetwork
