import GpuNetwork.Commits.Effects

/-!
# Claim tokens

`register_node` reads the row of the claim token it is shown, and marks the row as consumed
together with the node it inserts.  Over runs of any number of registrations that present
one token, the token is used once, provided that the row is still unused when they commit.

* `Unspent` — the claim token a registration uses up is not used up when it commits.
* `UsedOnce` — one registration has left its node, agent token and audit row, the others
  nothing.
-/

namespace GpuNetwork

open ReadCommitted ReadCommitted.Spec

/-- The request presents the claim token. -/
def IsRegistration (token : Str) (req : Request) : Prop :=
  ∃ client p, req = .registerNode client p ∧ p.claimToken = token

/-- The write uses up a claim token that has been used up. -/
def spent (db : Database) : Write Row Key → Bool
  | .update (.claimToken old) (.claimToken _) =>
    (db.claimToken old.id).any fun cur => cur.consumedAt.isSome
  | _ => false

/-- What the transaction has read of its claim token is still so. -/
def Unspent (db : Database) (tx : Transaction) : Prop := ∀ w ∈ tx.writes, spent db w = false

instance (db : Database) (tx : Transaction) : Decidable (Unspent db tx) :=
  inferInstanceAs (Decidable (∀ w ∈ tx.writes, spent db w = false))

/-- Only registrations with the claim token arrive, no statement of theirs is refused, and
each commits while the token is unused. -/
def FreshRegistrations (token : Str) : Terms Row Request ApiError Response := fun s l s' =>
  Admits (IsRegistration token) s l s' ∧ ¬ Refuses s l ∧
    OnCommits (fun s _ th => Unspent s.db th.ses.tx) s l s'

/-- The claim token, if it is known, has the row `tokenId`. -/
def OneToken (db : Database) (token : Str) (tokenId : Uuid) : Prop :=
  ∀ id c, db.claimToken id = some c → c.lookupPrefix = lookupPrefix token → id = tokenId

/-- What a registration commits. -/
def registrationWrites (n : Node) (c : ClaimToken) (now : Time) (a : AuditLog) :
    List (Write Row Key) :=
  [.insert (.node n), .update (.claimToken c) (.claimToken { c with consumedAt := some now }),
    .insert (.auditLog a)]

/-- No request has committed. -/
def Untouched (db₀ : Database) (s : System) : Prop :=
  s.db = db₀ ∧ ∀ (j : Nat) (tj : Pending), s.threads[j]? = some tj → tj.ses.past = []

/-- Thread `i` has committed `tx`, a registration, and no other request has committed. -/
structure LeftBy (db₀ : Database) (s : System) (i : Nat) (tx : Transaction) : Prop where
  past : ∃ th, s.threads[i]? = some th ∧ th.ses.past = [tx]
  writes : ∃ n c now a, tx.writes = registrationWrites n c now a ∧ a.eventType = .nodeRegistered
  db : s.db = tx.view db₀
  rest : ∀ (j : Nat) (tj : Pending), j ≠ i → s.threads[j]? = some tj → tj.ses.past = []

/-- At most one registration has committed, and those that are done and have not have failed
for the claim token. -/
structure UsedOnce (db₀ : Database) (s : System) : Prop where
  left : Untouched db₀ s ∨ ∃ i tx, LeftBy db₀ s i tx
  others : ∀ (i : Nat) (th : Pending), s.threads[i]? = some th → th.ses.past = [] →
    (∀ r, th.prog ≠ .ret r) ∧ ∀ e, th.prog = .throw e → ∃ fault, e = .claimTokenInvalid fault

/-! ## One registration -/

/-- The claim tokens stay, with their lookup prefixes. -/
def SameTokens (a b : Database) : Prop :=
  ∀ id, (b.claimToken id).map ClaimToken.lookupPrefix =
    (a.claimToken id).map ClaimToken.lookupPrefix

/-- The specification under which no statement is refused and the tokens stay. -/
def registering (app : App) : Spec Row Key Cond Request ApiError Response :=
  platform app (fun _ _ a b => SameTokens a b) False

variable {app : App} {rely : Rely} {refusals : Prop} {db : Database} {req : Request}
  {tx : Transaction} {token : Str}

theorem tokensStay_sameTokens : TokensStay fun _ _ a b => SameTokens a b := by
  intro req tx a b hab id hsome
  rw [Db.get_claimToken, Option.isSome_map] at hsome ⊢
  have hmap := congrArg Option.isSome (hab id)
  rwa [Option.isSome_map, Option.isSome_map, hsome] at hmap

theorem OneToken.of_sameTokens {a b : Database} {tokenId : Uuid} (h : OneToken a token tokenId)
    (hab : SameTokens a b) : OneToken b token tokenId := by
  intro id c hc hprefix
  have hmap := hab id
  rw [hc, Option.map_some, hprefix] at hmap
  obtain ⟨c', hc', hprefix'⟩ := Option.map_eq_some_iff.1 hmap.symm
  exact h id c' hc' hprefix'

/-- The shape of a registration. -/
theorem shape_of_registerNode (h : (platform app rely refusals).Committing db req tx)
    (hreq : IsRegistration token req) :
    ∃ c n now a, tx.Read (.claimTokenByPrefix (lookupPrefix token)) (.claimToken c) ∧
      c.consumedAt = none ∧ (∃ cur, db.claimToken c.id = some cur) ∧
      tx.writes = registrationWrites n c now a ∧ a.eventType = .nodeRegistered := by
  obtain ⟨client, p, rfl, rfl⟩ := hreq
  cases h.shape with
  | aside ha => cases ha
  | sets hs => cases hs
  | drain hd => cases hd
  | drained hd => cases hd
  | cancelQueued hc => cases hc
  | requestCancel hc => cases hc
  | cancelAgain hc => cases hc
  | registerNode hread hcheck hunused huser hgpu hstatus hfresh hfound hw hlogs =>
    obtain ⟨r, hr⟩ := h.exists_of_found hfound
    obtain ⟨cur, rfl, -⟩ := Row.eq_claimToken_of_key (Db.key_of_get hr)
    exact ⟨_, _, _, _, hread, hunused, ⟨cur, Db.get_claimToken_iff.1 hr⟩, hw, hlogs.event⟩

/-- The claim tokens after a registration. -/
theorem claimToken_view {n : Node} {c : ClaimToken} {now : Time} {a : AuditLog}
    (hw : tx.writes = registrationWrites n c now a) (id : Uuid) :
    (tx.view db).claimToken id =
      if c.id = id then (db.claimToken id).map (c.merge { c with consumedAt := some now })
      else db.claimToken id := by
  apply Db.claimToken_of_get
  rw [Tx.view, get_applyAll, hw, Db.get_claimToken]
  by_cases hid : c.id = id
  · subst hid
    cases db.claimToken c.id <;> simp [registrationWrites, Write.on, Row.key, Row.merge]
  · simp [registrationWrites, Write.on, Row.key, hid]

/-- **A registration keeps the claim tokens**, but for the time of their use. -/
theorem sameTokens_of_committing (h : (platform app rely refusals).Committing db req tx)
    (hreq : IsRegistration token req) : SameTokens db (tx.view db) := by
  obtain ⟨c, n, now, a, -, -, -, hw, -⟩ := shape_of_registerNode h hreq
  intro id
  rw [claimToken_view hw id]
  split
  · rw [Option.map_map]
    rfl
  · rfl

/-- The row a registration uses up is that of its token. -/
theorem id_of_read_token {tokenId : Uuid} (h : (registering app).Since req tx db)
    (hone : OneToken db token tokenId) {c : ClaimToken}
    (hread : tx.Read (.claimTokenByPrefix (lookupPrefix token)) (.claimToken c)) :
    c.id = tokenId := by
  obtain ⟨e, he, -, hget, hh⟩ := hread
  have hprefix : c.lookupPrefix = lookupPrefix token := by simpa [Cond.holds] using hh
  have hnow : (db.claimToken c.id).map ClaimToken.lookupPrefix = some (lookupPrefix token) :=
    h.keeps he
      (I := fun d => (d.claimToken c.id).map ClaimToken.lookupPrefix = some (lookupPrefix token))
      (fun tx' a b _ hab ha => by rw [hab c.id]; exact ha)
      (by rw [Db.get_claimToken_iff.1 hget, Option.map_some, hprefix])
  obtain ⟨c', hc', hprefix'⟩ := Option.map_eq_some_iff.1 hnow
  exact hone c.id c' hc' hprefix'

/-- The claim token has been used up. -/
def Consumed (db : Database) (tokenId : Uuid) : Prop :=
  ∃ c, db.claimToken tokenId = some c ∧ c.consumedAt.isSome = true

/-- **A registration uses up a token that is unused when it commits.** -/
theorem consumed_of_committing {tokenId : Uuid} (h : (registering app).Committing db req tx)
    (hreq : IsRegistration token req) (hfresh : Unspent db tx) (hone : OneToken db token tokenId) :
    ¬ Consumed db tokenId ∧ Consumed (tx.view db) tokenId ∧ ∃ n c now a,
      tx.writes = registrationWrites n c now a ∧ a.eventType = .nodeRegistered := by
  obtain ⟨c, n, now, a, hread, hunused, ⟨cur, hcur⟩, hw, hevent⟩ := shape_of_registerNode h hreq
  have hid := id_of_read_token h.toSince hone hread
  subst hid
  refine ⟨?_, ?_, n, c, now, a, hw, hevent⟩
  · rintro ⟨c', hc', hsome⟩
    have hmem : .update (.claimToken c) (.claimToken { c with consumedAt := some now }) ∈
        tx.writes := by
      rw [hw]
      exact List.mem_cons_of_mem _ (List.mem_cons_self ..)
    have hnot := hfresh _ hmem
    rw [spent, hc', Option.any_some, hsome] at hnot
    cases hnot
  · refine ⟨_, by rw [claimToken_view hw, if_pos rfl, hcur, Option.map_some], ?_⟩
    simp [ClaimToken.merge, hunused, col]

/-! ## Runs -/

/-- The registrations, with the row of their token. -/
def Registered (db₀ : Database) (tokenId : Uuid) (s : System) : Prop :=
  Untouched db₀ s ∨ (∃ i tx, LeftBy db₀ s i tx) ∧ Consumed s.db tokenId

/-- A step that commits nothing. -/
theorem registered_of_no_commit {tokenId : Uuid} {db₀ : Database} {s s' : System}
    {l : Label Request} (hs : step (controlPlane app) s l = some s')
    (hdb : s'.db = s.db) (hno : ∀ i th, ¬ Commits s l i th) (h : Registered db₀ tokenId s) :
    Registered db₀ tokenId s' := by
  have hpast : ∀ (j : Nat) (tj' : Pending), s'.threads[j]? = some tj' →
      (s.threads[j]? = none ∧ tj'.ses.past = []) ∨
      ∃ tj, s.threads[j]? = some tj ∧ tj'.ses.past = tj.ses.past := by
    intro j tj' hj
    rcases past_cases hs hj with hnew | ⟨tj, htj, -, hsame | ⟨hc, -⟩⟩
    · exact Or.inl hnew
    · exact Or.inr ⟨tj, htj, hsame⟩
    · exact absurd hc (hno j tj)
  rcases h with ⟨hdb₀, hnone⟩ | ⟨⟨i, tx, hleft⟩, hcons⟩
  · refine Or.inl ⟨hdb.trans hdb₀, fun j tj' hj => ?_⟩
    rcases hpast j tj' hj with ⟨-, hnil⟩ | ⟨tj, htj, hsame⟩
    · exact hnil
    · rw [hsame, hnone j tj htj]
  · refine Or.inr ⟨⟨i, tx, ?_, hleft.writes, hdb.trans hleft.db, fun j tj' hji hj => ?_⟩, ?_⟩
    · obtain ⟨th, hi, hth⟩ := hleft.past
      obtain ⟨th', hi'⟩ := thread_after hs hi
      rcases hpast i th' hi' with ⟨hnone, -⟩ | ⟨t, ht, hsame⟩
      · rw [hi] at hnone; cases hnone
      · rw [hi, Option.some.injEq] at ht
        exact ⟨th', hi', by rw [hsame, ← ht, hth]⟩
    · rcases hpast j tj' hj with ⟨-, hnil⟩ | ⟨tj, htj, hsame⟩
      · exact hnil
      · rw [hsame, hleft.rest j tj hji htj]
    · rw [hdb]; exact hcons

/-- A commit of a registration: it is the first one. -/
theorem registered_of_commits {tokenId : Uuid} {db₀ : Database} {s s' : System}
    {l : Label Request} {i : Nat} {th : Pending} (hok : (registering app).Ok s)
    (hs : step (controlPlane app) s l = some s') (hc : Commits s l i th)
    (hreq : IsRegistration token th.req) (hfresh : Unspent s.db th.ses.tx)
    (hone : OneToken s.db token tokenId) (h : Registered db₀ tokenId s) :
    Registered db₀ tokenId s' := by
  obtain ⟨hnot, hcons, hwrites⟩ := consumed_of_committing (hok.committing hc) hreq hfresh hone
  rcases h with ⟨hdb₀, hnone⟩ | ⟨-, hspent⟩
  · have hdb := db_of_commits hc hs
    refine Or.inr ⟨⟨i, th.ses.tx, ?_, hwrites, by rw [hdb, hdb₀], fun j tj' hji hj => ?_⟩, ?_⟩
    · obtain ⟨th', hi', hses⟩ := thread_of_commits hc hs
      refine ⟨th', hi', ?_⟩
      rw [hses, Session.committed, hnone i th hc.1, List.nil_append]
    · rcases past_cases hs hj with ⟨-, hnil⟩ | ⟨tj, htj, -, hsame | ⟨hcj, -⟩⟩
      · exact hnil
      · rw [hsame, hnone j tj htj]
      · exact absurd (eq_of_commits hcj hc) hji
    · rw [hdb]; exact hcons
  · exact absurd hspent hnot

/-- A registration that is done and has not committed has failed for the claim token. -/
theorem failed_of_uncommitted {s : System} (hok : (registering app).Ok s)
    (hcheck : ∀ hash, app.checkpw token hash ≠ none)
    (hhash : ∀ salt bytes, app.hashpw salt (agentTokenPrefix ++ app.tokenUrlsafe bytes) ≠ none)
    {i : Nat} {th : Pending} (hi : s.threads[i]? = some th) (hreq : IsRegistration token th.req)
    (hnil : th.ses.past = []) :
    (∀ r, th.prog ≠ .ret r) ∧ ∀ e, th.prog = .throw e → ∃ fault, e = .claimTokenInvalid fault := by
  have hsafe := hok.safe i th hi
  obtain ⟨client, p, hp, htoken⟩ := hreq
  rw [hp] at hsafe
  refine ⟨fun r hr => ?_, fun e he => ?_⟩
  · rw [hr] at hsafe
    obtain ⟨tx, htx⟩ := hsafe
    rw [hnil] at htx
    cases htx
  · rw [he] at hsafe
    rcases hsafe with hpast | hfault | ⟨hfalse, -⟩ | ⟨-, hgone⟩ | ⟨-, ⟨hash, hraise⟩ | hraise⟩
    · exact absurd hnil hpast
    · exact hfault
    · exact hfalse.elim
    · exact absurd tokensStay_sameTokens hgone
    · rw [htoken] at hraise
      exact absurd hraise (hcheck hash)
    · obtain ⟨salt, bytes, hraise⟩ := hraise
      exact absurd hraise (hhash salt bytes)

/-- **A claim token registers one node**, in every run of registrations that present it
and commit while it is unused, where bcrypt raises for none of the tokens. -/
theorem claim_token_registers_one_node (app : App) {db : Database} {tokenId : Uuid}
    (hone : OneToken db token tokenId) (hcheck : ∀ hash, app.checkpw token hash ≠ none)
    (hhash : ∀ salt bytes, app.hashpw salt (agentTokenPrefix ++ app.tokenUrlsafe bytes) ≠ none)
    (clock : Time) {s : System}
    (h : Reach (controlPlane app) (FreshRegistrations token) (idle db clock) s) :
    UsedOnce db s := by
  obtain ⟨hadm, hreqs⟩ := h.admitted (fun s l s' ht => ht.1) rfl
  have hinv := hadm.invariant
    (fun s => (registering app).Ok s ∧ OneToken s.db token tokenId ∧ Registered db tokenId s)
    (fun s l s' hI hs ht => ?_)
    ⟨ok_of_no_threads rfl, hone, Or.inl ⟨rfl, fun j tj hj => by simp [idle] at hj⟩⟩
  · obtain ⟨hok, -, hreg⟩ := hinv
    exact ⟨hreg.imp_right And.left, fun i th hi hnil =>
      failed_of_uncommitted hok hcheck hhash hi (hreqs i th hi) hnil⟩
  · obtain ⟨hok, hone, hreg⟩ := hI
    obtain ⟨⟨-, hrefuse, hfresh⟩, hreq⟩ := ht
    have hok' : (registering app).Ok s' := by
      refine ok_step (platform_valid app _ _) hok hs
        ⟨fun hr => absurd hr hrefuse, fun i th hc hcom j tj _ _ _ => ?_⟩
      rw [db_of_commits hc hs]
      exact sameTokens_of_committing hcom (hreq i th hc.1)
    by_cases hc : ∃ i th, Commits s l i th
    · obtain ⟨i, th, hc⟩ := hc
      have hsame := sameTokens_of_committing (hok.committing hc) (hreq i th hc.1)
      refine ⟨hok', ?_, registered_of_commits hok hs hc (hreq i th hc.1) (hfresh i th hc) hone hreg⟩
      rw [db_of_commits hc hs]
      exact hone.of_sameTokens hsame
    · have hno : ∀ i th, ¬ Commits s l i th := fun i th h => hc ⟨i, th, h⟩
      have hdb : s'.db = s.db := by
        rcases hok.db_cases hs with he | ⟨i, th, -, hc', -⟩
        · exact he
        · exact absurd hc' (hno i th)
      exact ⟨hok', by rw [hdb]; exact hone, registered_of_no_commit hs hdb hno hreg⟩

/-! ## Concrete runs -/

def sampleClaimToken : Str := "gpuclaim_t".toList

/-- A host with a claim token that is good for a second. -/
def tokenDb : Database :=
  (Db.empty.insert (.user sampleUser)).insert (.claimToken
    { id := 4, userId := 1, lookupPrefix := lookupPrefix sampleClaimToken,
      tokenHash := sampleClaimToken, expiresAt := second, createdAt := 0 })

def sampleRegistration : Request := .registerNode {}
  { claimToken := sampleClaimToken, gpuModel := "gpu".toList, gpuMemoryGb := 24, gpuCount := 1,
    suggestedName := some "node".toList, claimToken_length := by decide
    gpuModel_length := by decide, gpuMemoryGb_pos := by decide, gpuCount_pos := by decide
    suggestedName_length := by decide }

/-- Two registrations, the second after the first is answered. -/
def registeredRun : List (Label Request) :=
  .spawn sampleRegistration :: runs 0 16 ++ .spawn sampleRegistration :: runs 1 2

theorem claim_token_registers_one_node_at_registeredRun :
    ∃ s, Reach (controlPlane plainApp) (FreshRegistrations sampleClaimToken) (idle tokenDb 0) s ∧
      (s.threads.map fun th => th.ses.past.length) = [1, 0] ∧ UsedOnce tokenDb s := by
  obtain ⟨s, hs, hpasts⟩ := Option.map_eq_some_iff.1 (show
    (runWhile (controlPlane plainApp) (fun s l => !s.refuses l &&
      passes (fun s _ th => decide (Unspent s.db th.ses.tx)) s l) (idle tokenDb 0)
        registeredRun).map (fun s => s.threads.map fun th => th.ses.past.length) =
          some [1, 0] by decide +kernel)
  have hr : Reach (controlPlane plainApp) (FreshRegistrations sampleClaimToken)
      (idle tokenDb 0) s := by
    refine (Reach.of_runWhile hs).mono fun s l _ ht => ⟨fun req hl => ?_, fun href => ?_, ?_⟩
    · have hmem := ht.2
      simp only [hl, registeredRun, runs, List.mem_append, List.mem_cons, List.mem_replicate,
        Label.spawn.injEq, reduceCtorEq, and_false, or_false, or_self] at hmem
      exact ⟨_, _, hmem, rfl⟩
    · rw [refuses_of_Refuses href] at ht
      cases ht.1
    · exact onCommits_of_passes (Bool.and_eq_true_iff.1 ht.1).2
  have hone : OneToken tokenDb sampleClaimToken 4 := by
    intro id c hc _
    have hmem := Db.mem_of_get (Db.get_claimToken_iff.2 hc)
    have hkeys : ∀ r ∈ tokenDb.rows, r.key = .user 1 ∨ r.key = .claimToken 4 := by decide +kernel
    have hkey := Db.key_of_get (Db.get_claimToken_iff.2 hc)
    rcases hkeys _ hmem with hk | hk
    · cases hk
    · exact Key.claimToken.inj (hkey.symm.trans hk)
  exact ⟨s, hr, hpasts, claim_token_registers_one_node plainApp hone (fun _ => by simp [plainApp])
    (fun salt bytes => Option.isSome_iff_ne_none.1
      (hashes_plainApp agentTokenPrefix (by simp) salt bytes)) 0 hr⟩

/-- Both registrations read the claim token before the first of them commits. -/
def doubleRegistrationRun : List (Label Request) :=
  .spawn sampleRegistration :: runs 0 1 ++ .spawn sampleRegistration :: runs 1 1 ++
    runs 0 13 ++ runs 1 13

/-- **A claim token can register two nodes.** -/
theorem claim_token_registers_two_nodes :
    ¬ ∀ s, Reach (controlPlane plainApp) (Admits (IsRegistration sampleClaimToken))
      (idle tokenDb 0) s → UsedOnce tokenDb s := by
  intro h
  obtain ⟨s, hs, hpasts⟩ := Option.map_eq_some_iff.1 (show
    (runWhile (controlPlane plainApp) (fun _ _ => true) (idle tokenDb 0)
      doubleRegistrationRun).map (fun s => s.threads.map fun th => th.ses.past.length) =
        some [1, 1] by decide +kernel)
  have hr : Reach (controlPlane plainApp) (Admits (IsRegistration sampleClaimToken))
      (idle tokenDb 0) s := by
    refine (Reach.of_runWhile hs).mono fun s l _ ht req hl => ?_
    have hmem := ht.2
    simp only [hl, doubleRegistrationRun, runs, List.mem_append, List.mem_cons,
      List.mem_replicate, Label.spawn.injEq, reduceCtorEq, and_false, or_false, or_self] at hmem
    exact ⟨_, _, hmem, rfl⟩
  obtain ⟨t₀, rest, hthreads, h₀, hrest⟩ := List.map_eq_cons_iff.1 hpasts
  obtain ⟨t₁, rest', hthreads', h₁, -⟩ := List.map_eq_cons_iff.1 hrest
  have hi₀ : s.threads[0]? = some t₀ := by rw [hthreads]; rfl
  have hi₁ : s.threads[1]? = some t₁ := by rw [hthreads, hthreads']; rfl
  rcases (h s hr).left with ⟨-, hnone⟩ | ⟨i, tx, hleft⟩
  · rw [hnone 0 t₀ hi₀] at h₀
    cases h₀
  · by_cases hi : i = 0
    · rw [hleft.rest 1 t₁ (by omega) hi₁] at h₁
      cases h₁
    · rw [hleft.rest 0 t₀ (by omega) hi₀] at h₀
      cases h₀

end GpuNetwork
