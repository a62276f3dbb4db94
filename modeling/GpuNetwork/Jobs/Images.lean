import GpuNetwork.Commits.Keeps
import GpuNetwork.Jobs.Pinning
import GpuNetwork.Text.Pattern

/-!
# Image names

A job names the image it runs in.  `SubmitJobRequest` checks the name against a regular
expression, the control plane hands it to an agent as it is, and the agent puts it on two
command lines.

* `imageRe`, `validateImage` — the check.
* `ImageRef` — the grammar; `validateImage_iff`, `ImageRef.text_injective`.
* `ImageChecked`, `keeps_claimJob` — what is handed out has been checked.
* `pullArgs`, `runArgs` — the command lines, and what docker reads there.
-/

namespace GpuNetwork

open ReadCommitted ReadCommitted.Spec Text

/-! ## The check -/

/-- `[a-z0-9]`. -/
def alnumSet : List CharRange := [('a', 'z'), ('0', '9')]

/-- The characters that separate the parts of a name. -/
def separatorSet : List CharRange := [('_', '_'), ('.', '.'), ('-', '-'), ('/', '/')]

/-- `[a-zA-Z0-9_.\-]`. -/
def tagSet : List CharRange :=
  [('a', 'z'), ('A', 'Z'), ('0', '9'), ('_', '_'), ('.', '.'), ('-', '-')]

/-- `_IMAGE_RE` between its anchors. -/
def imageBody : Pattern :=
  .seq (.plus (.set alnumSet))
    (.seq (.star (.seq (.set separatorSet) (.plus (.set alnumSet))))
      (.opt (.seq (.char ':') (.plus (.set tagSet)))))

/-- `_IMAGE_RE`. -/
def imageRe : Pattern := .seq .start (.seq imageBody .finish)

/-- `_validate_image`. -/
def validateImage (v : Str) : Bool := imageRe.fullmatch v

/-! ## The grammar -/

/-- A lower-case letter or a digit. -/
def IsAlnum (c : Char) : Prop := 'a' ≤ c ∧ c ≤ 'z' ∨ '0' ≤ c ∧ c ≤ '9'

/-- An underscore, a dot, a hyphen or a slash. -/
def IsSeparator (c : Char) : Prop := c = '_' ∨ c = '.' ∨ c = '-' ∨ c = '/'

/-- A letter, a digit, an underscore, a dot or a hyphen. -/
def IsTagChar (c : Char) : Prop :=
  'a' ≤ c ∧ c ≤ 'z' ∨ 'A' ≤ c ∧ c ≤ 'Z' ∨ '0' ≤ c ∧ c ≤ '9' ∨ c = '_' ∨ c = '.' ∨ c = '-'

/-- A text of one or more such characters. -/
abbrev Word (p : Char → Prop) := {w : Str // w ≠ [] ∧ ∀ c ∈ w, p c}

/-- `name` or `name:tag`; the name is runs of letters and digits with a separator between
any two. -/
structure ImageRef where
  first : Word IsAlnum
  rest : List ({c : Char // IsSeparator c} × Word IsAlnum)
  tag : Option (Word IsTagChar)

namespace ImageRef

/-- The runs after the first, each behind its separator. -/
def restText : List ({c : Char // IsSeparator c} × Word IsAlnum) → Str
  | [] => []
  | (c, w) :: rest => c.val :: (w.val ++ restText rest)

def tagText : Option (Word IsTagChar) → Str
  | none => []
  | some w => ':' :: w.val

def text (r : ImageRef) : Str := r.first.val ++ (restText r.rest ++ tagText r.tag)

end ImageRef

theorem inSet_alnumSet {c : Char} : inSet alnumSet c = true ↔ IsAlnum c := by
  simp [alnumSet, IsAlnum]

theorem inSet_separatorSet {c : Char} : inSet separatorSet c = true ↔ IsSeparator c := by
  simp [separatorSet, IsSeparator, range_self]

theorem inSet_tagSet {c : Char} : inSet tagSet c = true ↔ IsTagChar c := by
  simp [tagSet, IsTagChar, range_self]

theorem inSet_colon {c : Char} : inSet [(':', ':')] c = true ↔ c = ':' := by
  simp [range_self]

open Pattern in
/-- A word of the grammar is one of the expression. -/
theorem mem_word {ranges : List CharRange} {p : Char → Prop}
    (h : ∀ c, inSet ranges c = true ↔ p c) {w : Str} :
    w ∈ word ranges ↔ w ≠ [] ∧ ∀ c ∈ w, p c := by
  show (w ≠ [] ∧ ∀ c ∈ w, inSet ranges c = true) ↔ _
  simp only [h]

open Pattern Computability in
/-- The texts of the expression. -/
theorem plain_imageBody : Plain imageBody (word alnumSet *
    ((single separatorSet * word alnumSet)∗ * (1 + single [(':', ':')] * word tagSet))) :=
  (Plain.word _).seq (((plain_set _).seq (Plain.word _)).star.seq
    ((plain_set _).seq (Plain.word _)).opt)

open Pattern Computability in
theorem mem_separated {w : Str} : w ∈ (single separatorSet * word alnumSet)∗ ↔
    ∃ rest, ImageRef.restText rest = w := by
  rw [Language.mem_kstar]
  constructor
  · rintro ⟨ws, rfl, hws⟩
    induction ws with
    | nil => exact ⟨[], rfl⟩
    | cons u ws ih =>
      obtain ⟨hu, hws⟩ := List.forall_mem_cons.1 hws
      obtain ⟨rest, hrest⟩ := ih hws
      obtain ⟨_, ⟨c, hc, rfl⟩, v, hv, rfl⟩ := Language.mem_mul.1 hu
      refine ⟨(⟨c, inSet_separatorSet.1 hc⟩, ⟨v, (mem_word fun _ => inSet_alnumSet).1 hv⟩) :: rest,
        ?_⟩
      rw [ImageRef.restText, hrest]
      simp
  · rintro ⟨rest, rfl⟩
    induction rest with
    | nil => exact ⟨[], rfl, by simp⟩
    | cons x rest ih =>
      obtain ⟨⟨c, hc⟩, ⟨v, hv⟩⟩ := x
      obtain ⟨ws, hws, hall⟩ := ih
      refine ⟨([c] ++ v) :: ws, ?_, List.forall_mem_cons.2 ⟨?_, hall⟩⟩
      · rw [ImageRef.restText, hws]
        simp
      · exact Language.mem_mul.2 ⟨[c], ⟨c, inSet_separatorSet.2 hc, rfl⟩, v,
          (mem_word fun _ => inSet_alnumSet).2 hv, rfl⟩

open Pattern in
theorem mem_tagged {w : Str} : w ∈ 1 + single [(':', ':')] * word tagSet ↔
    ∃ tag, ImageRef.tagText tag = w := by
  rw [Language.mem_add, Language.mem_one, Language.mem_mul]
  constructor
  · rintro (rfl | ⟨_, ⟨c, hc, rfl⟩, v, hv, rfl⟩)
    · exact ⟨none, rfl⟩
    · rw [inSet_colon.1 hc]
      exact ⟨some ⟨v, (mem_word fun _ => inSet_tagSet).1 hv⟩, rfl⟩
  · rintro ⟨_ | ⟨v, hv⟩, rfl⟩
    · exact Or.inl rfl
    · exact Or.inr ⟨[':'], ⟨':', inSet_colon.2 rfl, rfl⟩, v,
        (mem_word fun _ => inSet_tagSet).2 hv, rfl⟩

/-- **The check accepts the texts of the grammar**, and no others. -/
theorem validateImage_iff {v : Str} : validateImage v = true ↔ ∃ r : ImageRef, r.text = v := by
  rw [validateImage, imageRe, Pattern.fullmatch_anchored plain_imageBody, Language.mem_mul]
  constructor
  · rintro ⟨first, hfirst, w, hw, rfl⟩
    obtain ⟨u, hu, t, ht, rfl⟩ := Language.mem_mul.1 hw
    obtain ⟨rest, rfl⟩ := mem_separated.1 hu
    obtain ⟨tag, rfl⟩ := mem_tagged.1 ht
    exact ⟨⟨⟨first, (mem_word fun _ => inSet_alnumSet).1 hfirst⟩, rest, tag⟩, rfl⟩
  · rintro ⟨⟨⟨first, hfirst⟩, rest, tag⟩, rfl⟩
    exact ⟨first, (mem_word fun _ => inSet_alnumSet).2 hfirst, _, Language.mem_mul.2
      ⟨_, mem_separated.2 ⟨rest, rfl⟩, _, mem_tagged.2 ⟨tag, rfl⟩, rfl⟩, rfl⟩

/-! ## One decomposition -/

/-- Two texts that go on with another kind of character, if at all, are told apart there. -/
theorem append_inj_of_stop {p : Char → Prop} {a a' b b' : Str} (ha : ∀ c ∈ a, p c)
    (ha' : ∀ c ∈ a', p c) (hb : ∀ c ∈ b.head?, ¬ p c) (hb' : ∀ c ∈ b'.head?, ¬ p c)
    (h : a ++ b = a' ++ b') : a = a' ∧ b = b' := by
  induction a generalizing a' with
  | nil =>
    cases a' with
    | nil => exact ⟨rfl, h⟩
    | cons d a' =>
      rw [List.nil_append] at h
      subst h
      exact absurd (ha' d (List.mem_cons_self ..)) (hb d rfl)
  | cons c a ih =>
    cases a' with
    | nil =>
      rw [List.nil_append] at h
      subst h
      exact absurd (ha c (List.mem_cons_self ..)) (hb' c rfl)
    | cons d a' =>
      obtain ⟨hcd, htl⟩ := List.cons_eq_cons.1 h
      obtain ⟨rfl, rfl⟩ := ih (fun x hx => ha x (List.mem_cons_of_mem _ hx))
        (fun x hx => ha' x (List.mem_cons_of_mem _ hx)) htl
      exact ⟨congrArg (· :: a) hcd, rfl⟩

theorem IsSeparator.not_alnum {c : Char} (h : IsSeparator c) : ¬ IsAlnum c := by
  rcases h with rfl | rfl | rfl | rfl <;> simp [IsAlnum]

namespace ImageRef

theorem restText_injective : Function.Injective restText := by
  intro rest
  induction rest with
  | nil =>
    intro rest' h
    cases rest' with
    | nil => rfl
    | cons x rest' => cases h
  | cons x rest ih =>
    have hhead : ∀ ys, ∀ c ∈ (restText ys).head?, ¬ IsAlnum c := by
      intro ys c hc
      cases ys with
      | nil => cases hc
      | cons y ys =>
        obtain rfl : y.1.val = c := Option.some.inj hc
        exact y.1.property.not_alnum
    intro rest' h
    cases rest' with
    | nil => cases h
    | cons x' rest' =>
      obtain ⟨hc, h⟩ := List.cons_eq_cons.1 h
      obtain ⟨hw, hrest⟩ := append_inj_of_stop x.2.property.2 x'.2.property.2 (hhead _) (hhead _) h
      rw [ih hrest, Prod.ext (Subtype.ext hc) (Subtype.ext hw)]

theorem tagText_injective : Function.Injective tagText := by
  intro tag tag' h
  cases tag with
  | none =>
    cases tag' with
    | none => rfl
    | some w => cases h
  | some w =>
    cases tag' with
    | none => cases h
    | some w' => exact congrArg some (Subtype.ext (List.cons_eq_cons.1 h).2)

/-- A colon ends the name. -/
theorem head_tagText {tag : Option (Word IsTagChar)} {c : Char} (h : c ∈ (tagText tag).head?) :
    c = ':' := by
  cases tag with
  | none => cases h
  | some w => exact (Option.some.inj h).symm

theorem mem_restText {rest : List ({c : Char // IsSeparator c} × Word IsAlnum)} {c : Char}
    (h : c ∈ restText rest) : IsSeparator c ∨ IsAlnum c := by
  induction rest with
  | nil => cases h
  | cons x rest ih =>
    rcases List.mem_cons.1 h with rfl | h
    · exact Or.inl x.1.property
    · rcases List.mem_append.1 h with h | h
      · exact Or.inr (x.2.property.2 c h)
      · exact ih h

theorem head_append_tagText (rest : List ({c : Char // IsSeparator c} × Word IsAlnum))
    (tag : Option (Word IsTagChar)) {c : Char} (h : c ∈ (restText rest ++ tagText tag).head?) :
    ¬ IsAlnum c := by
  cases rest with
  | nil =>
    have hc := head_tagText h
    subst hc
    simp [IsAlnum]
  | cons x rest =>
    obtain rfl : x.1.val = c := Option.some.inj h
    exact x.1.property.not_alnum

/-- **A text decomposes in one way.** -/
theorem text_injective : Function.Injective text := by
  intro r r' h
  obtain ⟨first, rest, tag⟩ := r
  obtain ⟨first', rest', tag'⟩ := r'
  obtain ⟨hfirst, h⟩ := append_inj_of_stop first.property.2 first'.property.2
    (fun c hc => head_append_tagText rest tag hc) (fun c hc => head_append_tagText rest' tag' hc) h
  -- the name has no colon
  have hcolon : ∀ ys, ∀ c ∈ restText ys, c ≠ ':' := by
    intro ys c hc he
    subst he
    rcases mem_restText hc with h | h
    · simp [IsSeparator] at h
    · simp [IsAlnum] at h
  obtain ⟨hrest, htag⟩ := append_inj_of_stop (hcolon rest) (hcolon rest')
    (fun c hc hne => hne (head_tagText hc)) (fun c hc hne => hne (head_tagText hc)) h
  rw [Subtype.ext hfirst, restText_injective hrest, tagText_injective htag]

end ImageRef

/-! ## Options -/

/-- A character of ASCII that is neither white space nor a control character. -/
def IsGraphic (c : Char) : Prop := '!' ≤ c ∧ c ≤ '~'

theorem IsAlnum.graphic {c : Char} (h : IsAlnum c) : IsGraphic c := by
  rcases h with ⟨h₁, h₂⟩ | ⟨h₁, h₂⟩
  · exact ⟨Char.le_trans (by decide) h₁, Char.le_trans h₂ (by decide)⟩
  · exact ⟨Char.le_trans (by decide) h₁, Char.le_trans h₂ (by decide)⟩

theorem IsSeparator.graphic {c : Char} (h : IsSeparator c) : IsGraphic c := by
  rcases h with rfl | rfl | rfl | rfl <;> exact ⟨by decide, by decide⟩

theorem IsTagChar.graphic {c : Char} (h : IsTagChar c) : IsGraphic c := by
  rcases h with ⟨h₁, h₂⟩ | ⟨h₁, h₂⟩ | ⟨h₁, h₂⟩ | rfl | rfl | rfl
  · exact ⟨Char.le_trans (by decide) h₁, Char.le_trans h₂ (by decide)⟩
  · exact ⟨Char.le_trans (by decide) h₁, Char.le_trans h₂ (by decide)⟩
  · exact ⟨Char.le_trans (by decide) h₁, Char.le_trans h₂ (by decide)⟩
  · exact ⟨by decide, by decide⟩
  · exact ⟨by decide, by decide⟩
  · exact ⟨by decide, by decide⟩

/-- The image cannot be taken for an option, nor for more than one argument. -/
structure IsOperand (image : Str) : Prop where
  notOption : image.head? ≠ some '-'
  graphic : ∀ c ∈ image, IsGraphic c

theorem isOperand_of_validateImage {image : Str} (h : validateImage image = true) :
    IsOperand image := by
  obtain ⟨⟨⟨first, hne, hfirst⟩, rest, tag⟩, rfl⟩ := validateImage_iff.1 h
  refine ⟨fun hhead => ?_, fun c hc => ?_⟩
  · obtain ⟨d, w, rfl⟩ := List.exists_cons_of_ne_nil hne
    obtain rfl : d = '-' := Option.some.inj hhead
    exact absurd (hfirst _ (List.mem_cons_self ..)) (by simp [IsAlnum])
  · rcases List.mem_append.1 hc with hc | hc
    · exact (hfirst c hc).graphic
    rcases List.mem_append.1 hc with hc | hc
    · exact (ImageRef.mem_restText hc).elim IsSeparator.graphic IsAlnum.graphic
    · cases tag with
      | none => cases hc
      | some w =>
        rcases List.mem_cons.1 hc with rfl | hc
        · exact ⟨by decide, by decide⟩
        · exact (w.property.2 c hc).graphic

/-! ## Command lines -/

/-- `exec.CommandContext(ctx, "docker", "pull", image)`, behind the subcommand. -/
def pullArgs (image : Str) : List Str := [image]

/-- `exec.CommandContext(ctx, "docker", args...)` of `dockerRun`, behind the subcommand. -/
def runArgs (image : Str) (command : List Str) : List Str :=
  ["--rm".toList, "--gpus".toList, "all".toList, image] ++ command

/-- How a subcommand of docker reads its arguments: the options, and the operands. -/
abbrev ArgReader := List Str → List Str × List Str

/-- `docker run [OPTIONS] IMAGE [COMMAND] [ARG...]`: `--rm` is a flag, `--gpus` takes a value,
and the first argument that does not begin with a hyphen ends the options. -/
structure ReadsRun (read : ArgReader) : Prop where
  rm : ∀ args, read ("--rm".toList :: args) =
    ("--rm".toList :: (read args).1, (read args).2)
  gpus : ∀ value args, read ("--gpus".toList :: value :: args) =
    ("--gpus".toList :: value :: (read args).1, (read args).2)
  operand : ∀ arg args, arg.head? ≠ some '-' → read (arg :: args) = ([], arg :: args)

/-- `docker pull [OPTIONS] NAME`. -/
def ReadsPull (read : ArgReader) : Prop :=
  ∀ arg, arg.head? ≠ some '-' → read [arg] = ([], [arg])

/-- The image is the first operand of both command lines, behind the options of the agent. -/
structure FirstOperand (run pull : ArgReader) (image : Str) (command : List Str) : Prop where
  operand : IsOperand image
  runs : run (runArgs image command) =
    (["--rm".toList, "--gpus".toList, "all".toList], image :: command)
  pulls : pull (pullArgs image) = ([], [image])

theorem firstOperand_of_validateImage {run pull : ArgReader} (hrun : ReadsRun run)
    (hpull : ReadsPull pull) {image : Str} (h : validateImage image = true) (command : List Str) :
    FirstOperand run pull image command := by
  have himage := isOperand_of_validateImage h
  refine ⟨himage, ?_, hpull image himage.notOption⟩
  show run ("--rm".toList :: "--gpus".toList :: "all".toList :: image :: command) = _
  rw [hrun.rm, hrun.gpus, hrun.operand image command himage.notOption]

/-! ## From the submission to the agent -/

variable {app : App}

/-- The image of a job has been checked. -/
def ImageChecked : Row → Prop
  | .job j => validateImage j.dockerImage = true
  | _ => True

theorem imageChecked_invariant : RowInvariant ImageChecked where
  merge := by
    intro old new cur _ _ hcur
    show ImageChecked (Row.merge old new cur)
    unfold Row.merge
    split
    · trivial
    · trivial
    · exact hcur
    · trivial
    · trivial
    · trivial
    · trivial
    · exact hcur
  unref := by
    intro k r r' hr h
    change Row.unref k r = some r' at h
    unfold Row.unref at h
    split at h <;> cases h
    · exact hr
    · trivial

/-- An answer hands out a job whose image has been checked. -/
def HandsOutChecked (r : Response) : Prop :=
  ∀ id image command limit, r = .assignment id image command limit → validateImage image = true

/-- **A claim answers with a checked image**, as long as it reads checked ones. -/
theorem keeps_claimJob (bearer : Option Str) :
    (claimJob app bearer).Keeps ImageChecked HandsOutChecked := by
  have hempty : HandsOutChecked .noContent := by
    intro id image command limit h
    cases h
  refine keeps_bind (keeps_of_reads (reads_currentNode bearer) fun node => keeps_bind ?_)
  unfold claimForNode
  split
  · exact hempty
  refine keeps_bind (keeps_of_reads (reads_selectJob _) fun running => ?_)
  cases running with
  | some j => exact hempty
  | none =>
    refine keeps_bind (keeps_bind ⟨trivial, fun rows _ => keeps_bind ?_⟩)
    refine (keeps_lockFirst _ rows).mono fun o ho => ?_
    cases o with
    | none => exact ⟨trivial, fun _ _ => hempty⟩
    | some j =>
      have hj : ImageChecked (.job j) := ho j rfl
      have hclaimed : ∀ now, ImageChecked (.job (j.claimedBy node.id now)) := fun _ => hj
      refine keeps_bind ⟨trivial, fun now _ =>
        keeps_bind ((keeps_flush hj (hclaimed now)).mono fun _ _ => ?_)⟩
      refine keeps_bind ((keeps_createAudit (fun _ => trivial) ..).mono fun _ _ =>
        keeps_bind ⟨trivial, fun _ _ => keeps_bind ((keeps_refreshJob _).mono fun j' hj' => ?_)⟩)
      intro id image command limit h
      cases h
      exact hj'

/-- What `SubmitJobRequest` has checked before a handler sees it. -/
def Validated (req : Request) : Prop :=
  ∀ caller p, req = .submitJob caller p → validateImage p.dockerImage = true

theorem imageChecked_of_committing {rely : Rely} {refusals : Prop} {db : Database} {req : Request}
    {tx : Transaction} (h : (platform app rely refusals).Committing db req tx)
    (hreq : Validated req) (hdb : db.Every ImageChecked) : (tx.view db).Every ImageChecked := by
  intro r hr
  cases r with
  | job j =>
    have hj := Db.get_job_iff.1 (Db.get_of_mem hr)
    have hold : ∀ {j₀ : Job}, db.job j.id = some j₀ → validateImage j₀.dockerImage = true :=
      fun h₀ => hdb _ (Db.mem_of_get (Db.get_job_iff.2 h₀))
    have hstep := job_step h j.id
    rw [hj] at hstep
    generalize hb : db.job j.id = o at hstep
    cases hstep with
    | same => exact hold hb
    | submitted hsub hu hid hfields =>
      show validateImage j.dockerImage = true
      rw [hfields]
      exact hreq _ _ hsub
    | claimed _ _ _ _ _ _ _ =>
      have hcur := hold hb
      exact hcur
    | completed _ _ _ _ _ _ =>
      have hcur := hold hb
      exact hcur
    | cancelled _ _ _ _ =>
      have hcur := hold hb
      exact hcur
    | cancelRequested _ _ _ _ _ =>
      have hcur := hold hb
      exact hcur
    | nodeDeleted _ _ _ =>
      have hcur := hold hb
      exact hcur
  | _ => trivial

theorem imageChecked_of_reach {T : Terms Row Request ApiError Response}
    (hT : ∀ s l s', T s l s' → Admits Validated s l s') {db : Database}
    (hdb : db.Every ImageChecked) {clock : Time} {s : System}
    (h : Reach (controlPlane app) T (idle db clock) s) : s.db.Every ImageChecked :=
  invariant (P := onward app) (platform_valid app _ _)
    (fun _ _ _ hs _ _ => kept_of_commits (P := onward app) trivial
      (fun _ _ _ hcom _ _ => onward_of_committing hcom) hs)
    (Db.Every ImageChecked)
    (fun _ _ _ i th ht hc hcom hI => imageChecked_of_committing hcom (ht.2 i th hc.1) hI)
    (ok_of_no_threads rfl) hdb (Reach.admitted hT rfl h).1

/-- **Images are references of the grammar and never options.**  The check accepts exactly
the texts of the grammar, which decompose in one way; and whatever is submitted, claimed and
run at once, the image of an assignment is the first operand of the command lines that its
agent builds, whatever its command is. -/
theorem images_are_references (app : App) {db : Database} (hdb : db.Every ImageChecked)
    (clock : Time) {run pull : ArgReader} (hrun : ReadsRun run) (hpull : ReadsPull pull) :
    (∀ v : Str, validateImage v = true ↔ ∃ r : ImageRef, r.text = v) ∧
    Function.Injective ImageRef.text ∧
    (∀ p : SubmitJobRequest, validateImage p.dockerImage = true →
      ∀ command, FirstOperand run pull p.dockerImage command) ∧
    ∀ s, Reach (controlPlane app) (Admits Validated) (idle db clock) s →
      ∀ (i : Nat) (th : Pending) (bearer : Option Str) (id : Uuid) (image : Str)
        (command : List Str) (limit : Int), s.threads[i]? = some th →
        th.req = .claimJob bearer → th.prog = .ret (.assignment id image command limit) →
        FirstOperand run pull image command := by
  refine ⟨fun v => validateImage_iff, ImageRef.text_injective,
    fun p hp command => firstOperand_of_validateImage hrun hpull hp command, ?_⟩
  intro s hs i th bearer id image command limit hi hreq hret
  have hthread := keeps_of_reach imageChecked_invariant
    (A := fun req => ∃ bearer, req = .claimJob bearer) (Q := fun _ => HandsOutChecked)
    (fun req hA => by obtain ⟨bearer, rfl⟩ := hA; exact keeps_claimJob bearer)
    (fun s hs => imageChecked_of_reach (fun _ _ _ ht => ht) hdb hs) rfl hs th
    (List.mem_of_getElem? hi) ⟨bearer, hreq⟩
  have hprog := hthread.prog
  rw [hret] at hprog
  exact firstOperand_of_validateImage hrun hpull (hprog id image command limit rfl) command

/-- Options up to the first operand; of them only `--gpus` takes a value. -/
def readArgs : ArgReader
  | [] => ([], [])
  | [arg] => if arg.head? = some '-' then ([arg], []) else ([], [arg])
  | arg :: value :: args =>
    if arg.head? ≠ some '-' then ([], arg :: value :: args)
    else if arg = "--gpus".toList then
      (arg :: value :: (readArgs args).1, (readArgs args).2)
    else (arg :: (readArgs (value :: args)).1, (readArgs (value :: args)).2)

theorem readArgs_operand {arg : Str} (h : arg.head? ≠ some '-') (args : List Str) :
    readArgs (arg :: args) = ([], arg :: args) := by
  cases args with
  | nil => rw [readArgs, if_neg h]
  | cons value args => rw [readArgs, if_pos h]

theorem readsRun_readArgs : ReadsRun readArgs where
  rm := by
    intro args
    cases args with
    | nil => rfl
    | cons value args => rw [readArgs, if_neg (by decide), if_neg (by decide)]
  gpus := by
    intro value args
    rw [readArgs, if_neg (by decide), if_pos rfl]
  operand := fun _ args h => readArgs_operand h args

theorem readsPull_readArgs : ReadsPull readArgs := fun _ h => readArgs_operand h []

/-- A job in an image with a tag. -/
def taggedJob : SubmitJobRequest :=
  { pinnedJob with
    dockerImage := "registry.io/lib/img-1:v1.0".toList, dockerImage_length := by decide }

/-- The job is submitted and claimed. -/
def imageRun : List (Label Request) :=
  pinningRun taggedJob ++ .spawn (.claimJob (some sampleAgentToken)) :: runs 1 11

/-- The image the thread has been handed. -/
def imageOf (th : Pending) : Option Str :=
  match th.req, th.prog with
  | .claimJob _, .ret (.assignment _ image _ _) => some image
  | _, _ => none

/-- A submission that arrives has been validated. -/
def admitsValidated (_ : System) : Label Request → Bool
  | .spawn (.submitJob _ p) => validateImage p.dockerImage
  | _ => true

theorem images_are_references_at_imageRun :
    ∃ s, Reach (controlPlane plainApp) (Admits Validated) (idle twoNodesDb 0) s ∧
      ((s.threads[1]?).bind imageOf) = some "registry.io/lib/img-1:v1.0".toList ∧
      (∀ v : Str, validateImage v = true ↔ ∃ r : ImageRef, r.text = v) ∧
      ∃ command, FirstOperand readArgs readArgs "registry.io/lib/img-1:v1.0".toList command := by
  obtain ⟨s, hs, himage⟩ := Option.bind_eq_some_iff.1 (show
    (runWhile (controlPlane plainApp) admitsValidated (idle twoNodesDb 0) imageRun).bind
      (fun s => (s.threads[1]?).bind imageOf) = some "registry.io/lib/img-1:v1.0".toList by
        decide +kernel)
  have hr : Reach (controlPlane plainApp) (Admits Validated) (idle twoNodesDb 0) s := by
    refine (Reach.of_runWhile hs).mono fun s l s' ht req hl caller p hreq => ?_
    subst hl hreq
    exact ht.1
  have hdb : twoNodesDb.Every ImageChecked := by
    intro r hr
    cases r with
    | job j =>
      rw [show twoNodesDb.rows = [.user sampleUser, .node sampleNode, .node
        { sampleNode with
          id := 5, name := "other".toList, agentTokenHash := some otherAgentToken
          agentTokenPrefix := some (lookupPrefix otherAgentToken) }] by decide +kernel] at hr
      simp at hr
    | _ => trivial
  obtain ⟨hgrammar, -, -, hruns⟩ :=
    images_are_references plainApp hdb 0 readsRun_readArgs readsPull_readArgs
  refine ⟨s, hr, himage, hgrammar, ?_⟩
  obtain ⟨th, hth, hof⟩ := Option.bind_eq_some_iff.1 himage
  unfold imageOf at hof
  split at hof
  · rename_i bearer id image command limit hreq hret
    cases hof
    exact ⟨command, hruns s hr 1 th bearer id _ command limit hth hreq hret⟩
  · cases hof

end GpuNetwork
