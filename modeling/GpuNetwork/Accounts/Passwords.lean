import GpuNetwork.Accounts.Issuing
import GpuNetwork.Text.Utf8
import Mathlib.Data.Fintype.EquivFin

/-!
# Passwords

The schemas limit the characters of a password, and bcrypt looks at its first 72 bytes, or
raises on more.

* `EmailsDiffer`, `emails_differ`, `accountStays_of_reach` — the account that an address names.
* `leads_signup`, `leads_login` — what the two requests come to.
* `BcryptLimit`, `accepts_iff` — which passwords a hash is checked against.
* `ComparedInFull`, `passwords_compared_in_full_iff` — the passwords that let no other in.
-/

namespace GpuNetwork

open ReadCommitted ReadCommitted.Spec Text

variable {app : App} {db : Database} {req : Request} {tx : Transaction}

/-! ## Addresses -/

def IsUserRow : Row → Prop
  | .user _ => True
  | _ => False

/-- The requests that insert an account. -/
def SignsUp : Request → Prop
  | .signup _ _ => True
  | _ => False

/-- No two accounts have one address. -/
def EmailsDiffer (db : Database) : Prop :=
  ∀ a ∈ db.rows, ∀ b ∈ db.rows, IsUserRow a → IsUserRow b → a ≠ b → a.clash b = false

theorem isUserRow_of_alike {a b : Row} (h : Alike a b) (hb : IsUserRow b) : IsUserRow a := by
  have hkey : a.key = b.key := h.key
  cases a <;> cases b <;> trivial

theorem keepsRows_signup (client : Client) (p : SignupRequest) :
    KeepsRows (signup app client p) := by
  refine Prog.emits_bind (keepsRows_of_reads (reads_selectUser _)) fun found => ?_
  cases found with
  | some u => trivial
  | none =>
    refine Prog.emits_bind (Prog.emits_exec rfl) fun salt => ?_
    refine Prog.emits_bind (keepsRows_of_reads (reads_orRaise _)) fun hash => ?_
    refine Prog.emits_bind ⟨rfl, fun _ => ⟨rfl, fun _ => ⟨rfl, fun _ => trivial⟩⟩⟩ fun u => ?_
    refine Prog.emits_bind (keepsRows_createAudit _ _ _ _) fun _ => ?_
    refine Prog.emits_bind keepsRows_commit fun _ => ?_
    refine Prog.emits_bind (Prog.emits_bind (keepsRows_refresh _) fun r => ?_) fun _ => trivial
    cases r <;> trivial

theorem shape_of_signup {client : Client} {p : SignupRequest}
    (h : Shape app (.signup client p) tx) :
    ∃ u a, tx.writes = [.insert (.user u), .insert (.auditLog a)] := by
  cases h with
  | aside ha => cases ha
  | sets hs => cases hs
  | drain hd => cases hd
  | drained hd => cases hd
  | cancelQueued hc => cases hc
  | requestCancel hc => cases hc
  | cancelAgain hc => cases hc
  | signup hw hu hfresh hlogs => exact ⟨_, _, hw⟩

theorem signsUp_of_may {x : Row} (h : req.may (.insert x)) (hx : IsUserRow x) : SignsUp req := by
  cases x with
  | user u =>
    cases req with
    | signup client p => trivial
    | pushMetrics bearer id samples =>
      obtain ⟨g, hg⟩ := h
      cases hg
    | _ => cases h
  | _ => cases hx

/-- Accounts enter the store under the unique constraint on their addresses. -/
theorem enters_accounts (app : App) : Enters (issuing app) (controlPlane app)
    (fun q => q.keepsRows = true) (fun w => ∀ k, w ≠ .delete k) IsUserRow SignsUp := by
  refine enters_of_keepsRows versions_alike_row (fun a b => isUserRow_of_alike) (fun req hreq => ?_)
    (fun req tx hshape x hx hux => ?_) fun req tx hshape hreq a ha b hb hab => ?_
  · cases req with
    | signup client p => exact keepsRows_signup client p
    | _ => cases hreq
  · exact signsUp_of_may (may_of_shape hshape.1 _ (mem_inserted.1 hx)) hux
  · rw [mem_inserted] at ha hb
    cases req with
    | signup client p =>
      obtain ⟨u, l, hw⟩ := shape_of_signup hshape.1
      rw [hw] at ha hb
      -- an account and an audit row do not clash
      have ha' : a = .user u ∨ a = .auditLog l := by simpa using ha
      have hb' : b = .user u ∨ b = .auditLog l := by simpa using hb
      rcases ha' with rfl | rfl <;> rcases hb' with rfl | rfl
      · exact absurd rfl hab
      · rfl
      · rfl
      · exact absurd rfl hab
    | _ => cases hreq

/-- **No two accounts have one address**, in any state of any run. -/
theorem emails_differ {T : Terms Row Request ApiError Response} {clock : Time} {s : System}
    (hdb : EmailsDiffer db) (h : Reach (controlPlane app) T (idle db clock) s) :
    EmailsDiffer s.db := by
  have h₀ : Apart (fun q => q.keepsRows = true) (fun w => ∀ k, w ≠ .delete k) IsUserRow SignsUp
      (idle db clock : System) := apart_of_no_threads rfl hdb
  refine (h.invariant (fun s => (issuing app).Ok s ∧ Apart (fun q => q.keepsRows = true)
    (fun w => ∀ k, w ≠ .delete k) IsUserRow SignsUp s) (fun s l s' hI hs _ => ?_)
    ⟨ok_of_no_threads rfl, h₀⟩).2.stored
  refine ⟨?_, apart_step (enters_accounts app) Row.clash_comm hI.1 hI.2 hs⟩
  exact ok_step (issuing_valid app) hI.1 hs (issuing_kept hs)

/-- The account keeps its address and its password. -/
def AccountStays (o o' : Option User) : Prop :=
  ∀ u, o = some u → ∃ u', o' = some u' ∧ u'.email = u.email ∧ u'.passwordHash = u.passwordHash

theorem accountStays_of_committing {rely : Rely} {refusals : Prop}
    (h : (platform app rely refusals).Committing db req tx) (id : Uuid) :
    AccountStays (db.user id) ((tx.view db).user id) := by
  intro u hu
  have hstep := user_step h id
  rw [hu] at hstep
  generalize (tx.view db).user id = o at hstep ⊢
  cases hstep with
  | same => exact ⟨u, rfl, rfl, rfl⟩
  | set => exact ⟨_, rfl, rfl, rfl⟩
  | billed => exact ⟨_, rfl, rfl, rfl⟩

theorem accountStays_of_reach {T : Terms Row Request ApiError Response} {s s' : System}
    (hok : (issuing app).Ok s) (h : Reach (controlPlane app) T s s') (id : Uuid) :
    AccountStays (s.db.user id) (s'.db.user id) := by
  refine invariant (issuing_valid app) (fun _ _ _ hs _ _ => issuing_kept hs)
    (fun d => AccountStays (s.db.user id) (d.user id)) (fun _ _ _ _ _ _ _ hcom hI u hu => ?_) hok
    (fun u hu => ⟨u, hu, rfl, rfl⟩) h
  obtain ⟨u', hu', hemail, hhash⟩ := hI u hu
  obtain ⟨u'', hu'', hemail', hhash'⟩ := accountStays_of_committing hcom.of_also id u' hu'
  exact ⟨u'', hu'', hemail'.trans hemail, hhash'.trans hhash⟩

/-- The account that an address names. -/
theorem pickRow_userByEmail (hdb : EmailsDiffer db) {u : User} (hu : .user u ∈ db.rows)
    (pick : Nat) : pickRow pick (matching db (.userByEmail u.email)) = some (.user u) := by
  have hmem : .user u ∈ matching db (.userByEmail u.email) :=
    mem_matching.2 ⟨hu, decide_eq_true rfl⟩
  rcases pickRow_cases pick (matching db (.userByEmail u.email)) with ⟨-, hnil⟩ | ⟨r, hr, hpick⟩
  · rw [hnil] at hmem
    cases hmem
  · rw [hpick]
    obtain ⟨hstored, hholds⟩ := mem_matching.1 hr
    cases r with
    | user v =>
      by_contra hne
      have hclash := hdb _ hstored _ hu trivial trivial fun he => hne (by rw [he])
      rw [Row.clash, decide_eq_true (of_decide_eq_true hholds)] at hclash
      cases hclash
    | _ => cases hholds

/-! ## The two requests -/

/-- The address is not taken, and neither are the identifiers that are drawn. -/
structure Vacant (db : Database) (moments : Nat → Moment) (email : Str) : Prop where
  differ : EmailsDiffer db
  address : ∀ u, .user u ∈ db.rows → u.email ≠ email
  account : db.get (.user (moments 2).pick) = none
  record : db.get (.auditLog (moments 5).pick) = none

/-- The account of an address, with the hash of its password. -/
def Opened (db : Database) (email hash : Str) : Prop :=
  ∃ u, db.user u.id = some u ∧ u.email = email ∧ u.passwordHash = hash

theorem mem_insert {r x : Row} (h : x ∈ (db.insert r).rows) : x ∈ db.rows ∨ x = r := by
  rcases Db.get_insert_cases (Db.get_of_mem h) with hget | ⟨-, hx, -⟩
  · exact Or.inl (Db.mem_of_get hget)
  · exact Or.inr hx

/-- An account with a new address. -/
theorem emailsDiffer_of_insert (hdb : EmailsDiffer db) {u : User} {l : AuditLog}
    (hnew : ∀ v, .user v ∈ db.rows → v.email ≠ u.email)
    (hw : tx.writes = [.insert (.user u), .insert (.auditLog l)]) : EmailsDiffer (tx.view db) := by
  have hview : tx.view db = (db.insert (.user u)).insert (.auditLog l) := by
    rw [Tx.view, hw]
    rfl
  have hmem : ∀ a ∈ (tx.view db).rows, IsUserRow a → a ∈ db.rows ∨ a = .user u := by
    intro a ha hua
    rw [hview] at ha
    rcases mem_insert ha with ha | rfl
    · exact mem_insert ha
    · cases hua
  have hfree : ∀ a ∈ db.rows, IsUserRow a → a.clash (.user u) = false := by
    intro a ha hua
    cases a with
    | user v => exact decide_eq_false (hnew v ha)
    | _ => rfl
  intro a ha b hb hua hub hne
  rcases hmem a ha hua with ha | rfl <;> rcases hmem b hb hub with hb | rfl
  · exact hdb a ha b hb hua hub hne
  · exact hfree a ha hua
  · rw [Row.clash_comm]
    exact hfree b hb hub
  · exact absurd rfl hne

section Handlers

variable {moments : Nat → Moment} {client : Client}

theorem leads_getUserByEmail {w : Scene} {email : Str} {o : Option User}
    {Q : Option User → Scene → Prop} {E : Scene → Prop} (hw : w.ses.tx.writes = [])
    (ho : pickRow (w.moments 0).pick (matching w.db (.userByEmail email)) = o.map .user)
    (h : Q o (w.reads (.select (.userByEmail email)))) :
    (getUserByEmail email).Leads .database w Q E := by
  refine leads_bind (leads_select_of (o := o.map .user) ?_ ?_)
  · rw [Tx.view_of_no_writes hw, ho]
  · cases o <;> exact h

/-- A new account is recorded and committed. -/
theorem leads_recordSignup {w : Scene} {u : User} {Q : Response → Scene → Prop}
    {E : Scene → Prop} (hdb : w.db = db) (hw : w.ses.tx.writes = [.insert (.user u)])
    (hdiffer : EmailsDiffer db) (hnew : ∀ v, .user v ∈ db.rows → v.email ≠ u.email)
    (hnone : db.get (.user u.id) = none) (hrecord : db.get (.auditLog (w.moments 0).pick) = none)
    (hQ : ∀ r w', w'.db.user u.id = some u → EmailsDiffer w'.db → Q r w') :
    (do
      createAudit .authSignup (some u.id) {} client
      commit
      let user ← refreshUser u.id
      pure (.user user) : Handler Response).Leads .database w Q E := by
  subst hdb
  have hget : ∀ {tx : Transaction} {rest : List (Write Row Key)},
      tx.writes = .insert (.user u) :: rest → (∀ v ∈ rest, v.target ≠ .user u.id) →
      (tx.view w.db).get (.user u.id) = some (.user u) := by
    intro tx rest hws hrest
    rw [get_view_of_first hws hrest, hnone]
    exact if_pos rfl
  have huser : ∀ {view : Database}, view.get (.user u.id) = some (.user u) →
      view.user u.id = some u := fun h => Db.user_of_get h
  have hthere : ((w.ses.tx.view w.db).user u.id).isSome := by
    rw [huser (hget hw (by simp))]
    rfl
  refine leads_bind (leads_auditRow rfl hthere (fun hne => ?_) fun a w₁ _ _ hadds => ?_)
  · rw [Tx.view_get (by simp [hw, Write.target, Row.key])] at hne
    exact absurd hrecord hne
  · have hw₁ : w₁.ses.tx.writes = [.insert (.user u), .insert (.auditLog a)] := by
      rw [hadds.writes, hw]
      rfl
    have hrest : ∀ v ∈ [Write.insert (Row.auditLog a)], v.target ≠ .user u.id := by
      simp [Write.target, Row.key]
    refine leads_bind (leads_commitTx fun w₂ hdb₂ _ htx₂ => ?_)
    have hview : w₂.ses.tx.view w₂.db = w₁.ses.tx.view w.db := by
      rw [htx₂, Tx.view_of_no_writes rfl, hdb₂, hadds.db]
    refine leads_bind (leads_bind (leads_refresh_of (r := .user u) ?_ fun w₃ hsame => ?_))
    · rw [hview]
      exact hget hw₁ hrest
    · refine leads_ret (leads_ret (hQ _ _ ?_ ?_))
      · rw [hsame.db, hdb₂, hadds.db]
        exact huser (hget hw₁ hrest)
      · rw [hsame.db, hdb₂, hadds.db]
        exact emailsDiffer_of_insert hdiffer hnew hw₁

/-- `AuthService.signup` goes through if bcrypt hashes the password, and raises otherwise. -/
theorem leads_signup {p : SignupRequest} (hv : Vacant db moments p.email) :
    (signup app client p).Leads .database ({ db, moments } : Scene)
      (fun _ w' => ∃ hash, app.hashpw (moments 1).pick p.password = some hash ∧
        Opened w'.db p.email hash ∧ EmailsDiffer w'.db)
      (fun _ => app.hashpw (moments 1).pick p.password = none) := by
  have hnone : pickRow (moments 0).pick (matching db (.userByEmail p.email)) = none := by
    rcases pickRow_cases (moments 0).pick (matching db (.userByEmail p.email)) with
      ⟨hnone, -⟩ | ⟨r, hr, -⟩
    · exact hnone
    · obtain ⟨hstored, hholds⟩ := mem_matching.1 hr
      cases r with
      | user v => exact absurd (of_decide_eq_true hholds) (hv.address v hstored)
      | _ => cases hholds
  refine leads_bind (leads_getUserByEmail (o := none) rfl hnone ?_)
  refine leads_bind (leads_random (leads_ret (leads_bind ?_)))
  cases hhash : app.hashpw (moments 1).pick p.password with
  | none =>
    show Prog.Leads ApiError.database (orRaise (app.hashpw (moments 1).pick p.password)) _ _ _
    rw [hhash]
    exact leads_throw rfl
  | some hash =>
    show Prog.Leads ApiError.database (orRaise (app.hashpw (moments 1).pick p.password)) _ _ _
    rw [hhash]
    refine leads_ret (leads_bind (leads_createRow (fun id t =>
      .user { id, email := p.email, passwordHash := hash, createdAt := t }) rfl rfl
      (fun t => rfl) (fun t => ?_) fun t w₂ _ hocc hdb₂ hw₂ hshift₂ => ?_))
    · rintro (hstore | hocc)
      · have hplain : plainText p.email = true := (Bool.and_eq_true_iff.1 p.email_accepted).2
        simp [storable, Schema.fits, Row.fits, Schema.texts, Row.texts, fitsInteger, hplain,
          app.hashpw_plain _ _ hash hhash] at hstore
      · rw [occupied_eq_false_iff.2 ⟨hv.account, fun x hx => ?_⟩] at hocc
        · cases hocc
        · cases x with
          | user v => exact decide_eq_false (hv.address v hx)
          | _ => rfl
    · refine leads_recordSignup hdb₂ hw₂ hv.differ hv.address hv.account ?_
        fun r w' hu hdiffer => ?_
      · rw [hshift₂]
        exact hv.record
      · exact ⟨hash, rfl, ⟨_, hu, rfl, rfl⟩, hdiffer⟩

/-- `AuthService.login`, where the identifier of the audit row is free. -/
theorem leads_login {p : LoginRequest} {u : User} (hdb : EmailsDiffer db)
    (hu : .user u ∈ db.rows) (hemail : u.email = p.email)
    (hrecord : db.get (.auditLog (moments 1).pick) = none) :
    (login app client p).Leads .database ({ db, moments } : Scene)
      (fun _ _ => app.checkpw p.password u.passwordHash = some true ∧ True)
      (fun _ => ¬ app.checkpw p.password u.passwordHash = some true) := by
  have hfound := pickRow_userByEmail hdb hu (moments 0).pick
  rw [hemail] at hfound
  refine leads_bind (leads_getUserByEmail (o := some u) rfl hfound (leads_bind ?_))
  cases hcheck : app.checkpw p.password u.passwordHash with
  | none => exact leads_throw (by simp)
  | some valid =>
    refine leads_ret ?_
    cases valid with
    | false =>
      show (loginFailed client p.email (some u)).Leads .database _ _ _
      refine leads_bind (leads_createAudit (fun _ _ _ => by simp) fun w₂ a _ _ _ _ => ?_)
      exact leads_bind (leads_commitTx fun w₃ _ _ _ => leads_throw (by simp))
    | true =>
      rw [if_pos rfl]
      refine leads_bind (leads_auditRow rfl ?_ (fun hne => absurd hrecord hne)
        fun a w₂ _ _ _ => ?_)
      · have hget : db.user u.id = some u := Db.user_of_get (Db.get_of_mem hu)
        exact (congrArg Option.isSome hget).trans rfl
      · exact leads_bind (leads_commitTx fun w₃ _ _ _ => leads_bind (leads_bind (leads_now
          (leads_ret (leads_ret ⟨rfl, trivial⟩)))))

end Handlers

/-! ## What bcrypt compares -/

/-- How many bytes of a password bcrypt looks at. -/
def bcryptLimit : Nat := 72

/-- The bytes of a password that bcrypt looks at. -/
def hashed (text : Str) : List UInt8 := (Utf8.encode text).take bcryptLimit

/-- bcrypt tells passwords of at most 72 bytes apart, and either raises on longer ones or
looks at their first 72 bytes. -/
structure BcryptLimit (app : App) (raises : Bool) : Prop where
  hashpw : ∀ salt text, (Utf8.encode text).length ≤ bcryptLimit ∨ raises = false →
    (app.hashpw salt text).isSome
  hashpw_raises : raises = true → ∀ salt text, bcryptLimit < (Utf8.encode text).length →
    app.hashpw salt text = none
  checkpw : ∀ salt text hash, app.hashpw salt text = some hash → ∀ other,
    (Utf8.encode other).length ≤ bcryptLimit ∨ raises = false →
      app.checkpw other hash = some (decide (hashed other = hashed text))
  checkpw_raises : raises = true → ∀ other hash, bcryptLimit < (Utf8.encode other).length →
    app.checkpw other hash = none

variable {raises : Bool} {salt : Nat} {text hash : Str}

/-- The hash lets a password in that bcrypt takes, and that agrees on the bytes it looks at. -/
theorem accepts_iff (hb : BcryptLimit app raises) (hhash : app.hashpw salt text = some hash)
    (other : Str) : app.checkpw other hash = some true ↔
      ((Utf8.encode other).length ≤ bcryptLimit ∨ raises = false) ∧ hashed other = hashed text := by
  by_cases hok : (Utf8.encode other).length ≤ bcryptLimit ∨ raises = false
  · rw [hb.checkpw salt text hash hhash other hok, Option.some.injEq, decide_eq_true_eq,
      and_iff_right hok]
  · obtain ⟨hlong, hraises⟩ := not_or.1 hok
    rw [hb.checkpw_raises (by simpa using hraises) other hash (by omega)]
    exact iff_of_false (by simp) fun h => hok h.1

/-- The hash lets no other password in. -/
def Discerned (raises : Bool) (text : Str) : Prop :=
  ∀ other : Str, 1 ≤ other.length ∧ other.length ≤ 72 →
    ((Utf8.encode other).length ≤ bcryptLimit ∨ raises = false) → hashed other = hashed text →
      other = text

/-- The passwords that bcrypt takes and tells from all others. -/
theorem discerned_iff (hlen : 8 ≤ text.length ∧ text.length ≤ 72) :
    (((Utf8.encode text).length ≤ bcryptLimit ∨ raises = false) ∧ Discerned raises text) ↔
      (Utf8.encode text).length < bcryptLimit ∨
        ((Utf8.encode text).length = bcryptLimit ∧
          (raises = true ∨ text.length = bcryptLimit)) := by
  cases raises with
  | true =>
    have hshort : ∀ {cs : Str}, (Utf8.encode cs).length ≤ bcryptLimit →
        hashed cs = Utf8.encode cs :=
      fun h => List.take_of_length_le h
    constructor
    · rintro ⟨hfits | hraises, -⟩
      · rcases hfits.lt_or_eq with hlt | heq
        · exact Or.inl hlt
        · exact Or.inr ⟨heq, Or.inl rfl⟩
      · cases hraises
    · intro h
      have hfits : (Utf8.encode text).length ≤ bcryptLimit :=
        h.elim Nat.le_of_lt fun h => h.1.le
      refine ⟨Or.inl hfits, fun other _ hother heq => ?_⟩
      rcases hother with hother | hraises
      · rw [hshort hother, hshort hfits] at heq
        exact Utf8.encode_injective heq
      · cases hraises
  | false =>
    have htold : Utf8.ToldApart bcryptLimit text ↔ Discerned false text := by
      constructor
      · intro h other hother _ heq
        exact h other hother.2 heq
      · intro h other hother heq
        by_cases hempty : other = []
        · -- the password is not empty, and neither are its first bytes
          have hbytes := Utf8.length_le text
          rw [hempty, Utf8.encode_nil, List.take_nil] at heq
          have hzero := congrArg List.length heq
          rw [List.length_nil, List.length_take] at hzero
          unfold bcryptLimit at hzero
          omega
        · exact h other ⟨List.length_pos_iff.2 hempty, hother⟩ (Or.inr rfl) heq
    rw [and_iff_right (Or.inr rfl), ← htold, Utf8.toldApart_iff (n := bcryptLimit) hlen.2]
    simp

/-! ## Passwords in full -/

/-- The request is answered without an error. -/
def GoesThrough (app : App) (req : Request) (db : Database) (moments : Nat → Moment) : Prop :=
  ∃ r w', served app req db moments = (.ok r, w')

/-- An account can be opened with the password, and lets that password in at any later time,
and no other one. -/
structure ComparedInFull (app : App) (password : Str)
    (h : 8 ≤ password.length ∧ password.length ≤ 72) : Prop where
  signsUp : ∀ client email (he : isEmail email = true) db moments, Vacant db moments email →
    GoesThrough app (.signup client ⟨email, password, he, h⟩) db moments
  logsIn : ∀ client email (he : isEmail email = true) db moments r w', Vacant db moments email →
    served app (.signup client ⟨email, password, he, h⟩) db moments = (.ok r, w') →
    ∀ T clock s, Reach (controlPlane app) T (idle w'.db clock) s →
    ∀ client' other (h' : 1 ≤ other.length ∧ other.length ≤ 72) moments',
      s.db.get (.auditLog (moments' 1).pick) = none →
      (GoesThrough app (.login client' ⟨email, other, he, h'⟩) s.db moments' ↔ other = password)

/-- Later on the hash of the account decides. -/
theorem login_iff {client : Client} {moments : Nat → Moment} {email other : Str}
    {he : isEmail email = true} {h : 1 ≤ other.length ∧ other.length ≤ 72}
    {T : Terms Row Request ApiError Response} {clock : Time} {s : System}
    (hopened : Opened db email hash) (hdiffer : EmailsDiffer db)
    (hreach : Reach (controlPlane app) T (idle db clock) s)
    (hrecord : s.db.get (.auditLog (moments 1).pick) = none) :
    GoesThrough app (.login client ⟨email, other, he, h⟩) s.db moments ↔
      app.checkpw other hash = some true := by
  obtain ⟨u, hu, hemail, hhash⟩ := hopened
  obtain ⟨u', hu', hemail', hhash'⟩ := accountStays_of_reach (ok_of_no_threads rfl) hreach u.id u hu
  have hmem : .user u' ∈ s.db.rows := Db.mem_of_get (Db.get_user_iff.2 hu')
  have hlogin : (∃ r w', served app (.login client ⟨email, other, he, h⟩) s.db moments =
      (.ok r, w') ∧ True) ↔ app.checkpw other u'.passwordHash = some true :=
    (leads_login (emails_differ hdiffer hreach) hmem (hemail'.trans hemail) hrecord).exists_ok_iff
  rw [hhash', hhash] at hlogin
  rw [← hlogin]
  exact ⟨fun ⟨r, w', hr⟩ => ⟨r, w', hr, trivial⟩, fun ⟨r, w', hr, _⟩ => ⟨r, w', hr⟩⟩

def unpicked : Nat → Moment := fun _ => ⟨0, 0, 0⟩

/-- The address of an account that is yet to be opened. -/
def newEmail : Str := "user@example.org".toList

theorem isEmail_newEmail : isEmail newEmail = true := by decide

theorem vacant_empty : Vacant Db.empty unpicked newEmail :=
  ⟨fun _ ha => absurd ha (by simp [Db.empty]), fun _ hu => absurd hu (by simp [Db.empty]), rfl, rfl⟩

/-- Some identifier is not taken. -/
theorem exists_free (db : Database) : ∃ pick, db.get (.auditLog pick) = none := by
  obtain ⟨pick, hpick⟩ :=
    Infinite.exists_notMem_finset ((auditLogsOf db.rows).map AuditLog.id).toFinset
  refine ⟨pick, Option.eq_none_iff_forall_not_mem.2 fun r hr => hpick ?_⟩
  obtain ⟨a, rfl, hid⟩ := Row.eq_auditLog_of_key (Db.key_of_get hr)
  rw [List.mem_toFinset, List.mem_map]
  exact ⟨a, List.mem_filterMap.2 ⟨_, Db.mem_of_get hr, rfl⟩, hid⟩

theorem discerned_of_comparedInFull (hb : BcryptLimit app raises) {password : Str}
    {hlen : 8 ≤ password.length ∧ password.length ≤ 72} (h : ComparedInFull app password hlen) :
    ((Utf8.encode password).length ≤ bcryptLimit ∨ raises = false) ∧
      Discerned raises password := by
  obtain ⟨r, w', hserved⟩ := h.signsUp {} newEmail isEmail_newEmail Db.empty unpicked vacant_empty
  obtain ⟨hash, hhash, hopened, hdiffer⟩ := (leads_signup vacant_empty).of_ok hserved
  refine ⟨?_, fun other hother hfits heq => ?_⟩
  · by_contra hcon
    obtain ⟨hlong, hraises⟩ := not_or.1 hcon
    rw [hb.hashpw_raises (by simpa using hraises) _ _ (Nat.lt_of_not_le hlong)] at hhash
    cases hhash
  · obtain ⟨pick, hpick⟩ := exists_free w'.db
    have hreach : Reach (controlPlane app) (fun _ _ _ => True) (idle w'.db 0) (idle w'.db 0) :=
      Reach.refl
    let later : Nat → Moment := fun _ => ⟨0, 0, pick⟩
    have hrecord : (idle w'.db 0 : System).db.get (.auditLog (later 1).pick) = none := hpick
    have hin : GoesThrough app (.login {} ⟨newEmail, other, isEmail_newEmail, hother⟩)
        (idle w'.db 0 : System).db later :=
      (login_iff hopened hdiffer hreach hrecord).2 ((accepts_iff hb hhash other).2 ⟨hfits, heq⟩)
    exact (h.logsIn {} newEmail isEmail_newEmail Db.empty unpicked r w' vacant_empty hserved _ 0 _
      hreach {} other hother later hrecord).1 hin

theorem comparedInFull_of_discerned (hb : BcryptLimit app raises) {password : Str}
    (hlen : 8 ≤ password.length ∧ password.length ≤ 72)
    (hfits : (Utf8.encode password).length ≤ bcryptLimit ∨ raises = false)
    (hdiscerned : Discerned raises password) : ComparedInFull app password hlen := by
  refine ⟨fun client email he db moments hv => ?_,
    fun client email he db moments r w' hv hserved T clock s hreach client' other h' moments'
      hrecord => ?_⟩
  · have hsome := hb.hashpw (moments 1).pick password hfits
    cases hserved : served app (.signup client ⟨email, password, he, hlen⟩) db moments with
    | mk res w' =>
      cases res with
      | ok r => exact ⟨r, w', hserved⟩
      | error e =>
        have hnone := (leads_signup hv).of_error hserved
        rw [hnone] at hsome
        cases hsome
  · obtain ⟨hash, hhash, hopened, hdiffer⟩ := (leads_signup hv).of_ok hserved
    rw [login_iff hopened hdiffer hreach hrecord, accepts_iff hb hhash]
    constructor
    · rintro ⟨hother, heq⟩
      exact hdiscerned other h' hother heq
    · rintro rfl
      exact ⟨hfits, rfl⟩

/-- **Passwords are compared in full if they have less than 72 bytes, or 72 and no room for
one more character**; or if bcrypt raises on a 73rd byte. -/
theorem passwords_compared_in_full_iff (hb : BcryptLimit app raises) (password : Str)
    (hlen : 8 ≤ password.length ∧ password.length ≤ 72) : ComparedInFull app password hlen ↔
      (Utf8.encode password).length < 72 ∨
        ((Utf8.encode password).length = 72 ∧ (raises = true ∨ password.length = 72)) := by
  rw [← show bcryptLimit = 72 from rfl, ← discerned_iff hlen]
  constructor
  · exact discerned_of_comparedInFull hb
  · rintro ⟨hfits, hdiscerned⟩
    exact comparedInFull_of_discerned hb hlen hfits hdiscerned

/-- Bytes as text, without the character NUL. -/
def byteText (bytes : List UInt8) : Str := bytes.map fun b => Char.ofNat (b.toNat + 1)

theorem toNat_ofNat_byte (b : UInt8) : (Char.ofNat (b.toNat + 1)).toNat = b.toNat + 1 := by
  have hall : ∀ n < 256, (Char.ofNat (n + 1)).toNat = n + 1 := by decide +kernel
  exact hall _ b.toNat_lt

theorem byteText_injective : Function.Injective byteText := by
  refine List.map_injective_iff.2 fun b b' heq => ?_
  have hnat := congrArg Char.toNat heq
  rw [toNat_ofNat_byte, toNat_ofNat_byte, Nat.add_right_cancel_iff] at hnat
  exact UInt8.toNat_inj.1 hnat

theorem plainText_byteText (bytes : List UInt8) : plainText (byteText bytes) = true := by
  rw [plainText_iff]
  intro h
  obtain ⟨b, -, hb⟩ := List.mem_map.1 h
  have hnat := congrArg Char.toNat hb
  rw [toNat_ofNat_byte] at hnat
  cases hnat

/-- A deployment in which bcrypt raises on more than 72 bytes. -/
def raisingApp : App :=
  { plainApp with
    hashpw := fun _ text =>
      if (Utf8.encode text).length ≤ bcryptLimit then some (byteText (hashed text)) else none
    hashpw_plain := fun _ _ _ h => by
      obtain ⟨-, heq⟩ := Option.ite_none_right_eq_some.1 h
      cases heq
      exact plainText_byteText _
    checkpw := fun other hash =>
      if (Utf8.encode other).length ≤ bcryptLimit then
        some (decide (byteText (hashed other) = hash))
      else none }

/-- A deployment in which it looks at the first 72 bytes. -/
def truncatingApp : App :=
  { plainApp with
    hashpw := fun _ text => some (byteText (hashed text))
    hashpw_plain := fun _ _ _ h => by
      cases h
      exact plainText_byteText _
    checkpw := fun other hash => some (decide (byteText (hashed other) = hash)) }

theorem bcryptLimit_raisingApp : BcryptLimit raisingApp true := by
  refine ⟨fun salt text h => ?_, fun _ salt text h => if_neg (Nat.not_le.2 h),
    fun salt text hash hhash other h => ?_, fun _ other hash h => if_neg (Nat.not_le.2 h)⟩
  · have hfits := h.resolve_right (by simp)
    simp [raisingApp, hfits]
  · have hother := h.resolve_right (by simp)
    obtain ⟨-, heq⟩ := Option.ite_none_right_eq_some.1 hhash
    cases heq
    refine (if_pos hother).trans (congrArg some (decide_eq_decide.2 ?_))
    exact byteText_injective.eq_iff

theorem bcryptLimit_truncatingApp : BcryptLimit truncatingApp false := by
  refine ⟨fun salt text _ => rfl, fun h => absurd h (by simp),
    fun salt text hash hhash other _ => ?_,
    fun h => absurd h (by simp)⟩
  cases hhash
  exact congrArg some (decide_eq_decide.2 byteText_injective.eq_iff)

theorem passwords_compared_in_full_at_twelve :
    ComparedInFull truncatingApp "correcthorse".toList (by decide) ↔
      (Utf8.encode "correcthorse".toList).length < 72 ∨
        ((Utf8.encode "correcthorse".toList).length = 72 ∧
          (false = true ∨ "correcthorse".toList.length = 72)) :=
  passwords_compared_in_full_iff bcryptLimit_truncatingApp "correcthorse".toList (by decide)

/-- Forty letters of the Arabic alphabet, of two bytes each. -/
def arabicPassword : Str := List.replicate 40 'م'

theorem arabic_password_is_not_compared_in_full :
    ¬ ComparedInFull raisingApp arabicPassword (by decide) ∧
      ¬ ComparedInFull truncatingApp arabicPassword (by decide) := by
  constructor
  · -- bcrypt raises at the signup
    intro h
    obtain ⟨r, w', hserved⟩ := h.signsUp {} newEmail isEmail_newEmail Db.empty unpicked vacant_empty
    obtain ⟨hash, hhash, -⟩ := (leads_signup vacant_empty).of_ok hserved
    have hnone : raisingApp.hashpw (unpicked 1).pick arabicPassword = none := by decide +kernel
    rw [hnone] at hhash
    cases hhash
  · -- a password with another letter at its end gets in
    intro h
    have hsame : List.replicate 39 'م' ++ ['ن'] = arabicPassword :=
      (discerned_of_comparedInFull bcryptLimit_truncatingApp h).2 _ (by decide) (Or.inr rfl)
        (by decide +kernel)
    exact absurd hsame (by decide)

end GpuNetwork
