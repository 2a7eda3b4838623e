import LilTweak.SkillForge.Transactions
import Mathlib

/-!
# What leaves the library

The calls ask the database only what keeps it sound, so it is sound in every run of any number of them. What
a call returns that takes a token was approved by the owner, for this audience and purpose, and the token is
used up by it.
-/

namespace LilTweak.SkillForge

open LilTweak.Lib

section
variable {H : Host}

/-! ## The discipline -/

/-- When a question may be asked. -/
def Admits (d : Desk) : Question H → Prop
  | .insert c => ∃ p, Compiled H c p
  | .start _ _ role => Known role
  | .record owner digest role _ report => Measured H d owner digest role report
  | .grant o => Decided d o
  | .revoke owner digest => ∃ r ∈ d.library.rows, r.isAt owner digest = true
  | _ => True

theorem kept_same {d : Desk} (hd : Sound H d) : KeptBy H d d := ⟨hd, .refl d⟩

/-- A transaction that is rolled back leaves the desk as it is. -/
theorem commit_keeps {α : Type} {d : Desk} {x : Except Fault (α × Library)} (hd : Sound H d)
    (h : ∀ a L', x = .ok (a, L') → KeptBy H d { d with library := L' }) : KeptBy H d (d.commit x).2 := by
  cases x with
  | error e => exact kept_same hd
  | ok r => exact h r.1 r.2 rfl

theorem plain_ok {x : Except Fault Library} {a : Unit} {L : Library} (h : plain x = .ok (a, L)) : x = .ok L := by
  cases x with
  | error e => cases h
  | ok L' => exact congrArg Except.ok (Prod.mk.inj (Except.ok.inj h)).2

theorem decisions_keep {d : Desk} (hd : Sound H d) (decisions : List (ApprovalRequest × Decision)) (readings : List ℚ) :
    KeptBy H d { d with decisions := d.decisions ++ decisions, readings := d.readings ++ readings } := by
  have hlater : Later d { d with decisions := d.decisions ++ decisions, readings := d.readings ++ readings } :=
    ⟨fun r hr => ⟨r, hr, .refl r⟩, fun g hg => ⟨g, hg, rfl, id⟩, List.subset_append_left _ _, List.subset_append_left _ _,
      List.Subset.refl _⟩
  exact ⟨⟨hd.shelved, ⟨hd.granted.tokens, fun g hg => (hd.granted.decided g hg).later hlater, hd.granted.once,
    hd.granted.spent⟩, hd.accounted⟩, hlater⟩

theorem handOut_keeps {α : Type} {d : Desk} {now : ℚ} {x : Except Fault (α × Offer × Library)} (hd : Sound H d)
    (h : ∀ a o L', x = .ok (a, o, L') → KeptBy H d { d with library := L', handed := d.handed ++ [⟨o, now⟩] }) :
    KeptBy H d (d.handOut now x).2 := by
  cases x with
  | error e => exact kept_same hd
  | ok r => exact h r.1 r.2.1 r.2.2 rfl

theorem note_keeps {d : Desk} (hd : Sound H d) (request : ApprovalRequest) (answer : AuthorizerAnswer) :
    KeptBy H d (d.note request answer) := by
  cases answer with
  | decision decision =>
    have h := decisions_keep hd [(request, decision)] []
    rw [List.append_nil] at h
    exact h
  | _ => exact kept_same hd

/-- A question that may be asked keeps the desk sound. -/
theorem perform_keeps {d : Desk} {c : Choice} {q : Question H} (hd : Sound H d) (hq : Admits d q) :
    KeptBy H d (d.perform c q).2 := by
  cases q with
  | insert candidate =>
    obtain ⟨p, hp⟩ := hq
    exact commit_keeps hd fun _ _ h => insert_keeps hd hp (plain_ok h)
  | start owner digest role => exact commit_keeps hd fun _ _ h => start_keeps hd hq h
  | record owner digest role revision report => exact commit_keeps hd fun _ _ h => record_keeps hd hq (plain_ok h)
  | grant o => exact commit_keeps hd fun _ _ h => grant_keeps hd hq (plain_ok h)
  | revoke owner digest => exact commit_keeps hd fun _ _ h => revoke_keeps hd hq (plain_ok h)
  | consume owner digest audience token purpose => exact handOut_keeps hd fun _ _ _ h => (consume_keeps hd h).1
  | authorize request => exact note_keeps hd request c.authorizer
  | clock =>
    have h := decisions_keep hd [] [c.now]
    rw [List.append_nil] at h
    exact h
  | _ => exact kept_same hd

variable (H)

/-- What the calls rely on and keep to. -/
def discipline : Discipline (Question H) Question.Answer Desk where
  inv := Sound H
  le := Later
  answers d q a d' := ∃ c, d.perform c q = (a, d')
  guard := Admits
  refl := .refl
  trans := .trans
  step := by
    intro d q a d' hd hq ⟨c, hperform⟩
    have h := perform_keeps (c := c) hd hq
    rw [hperform] at h
    exact h

variable {H}

open Discipline (does_pure does_raise does_bind does_ite does_query)

variable {d : Desk}

/-- A computation of its own. -/
theorem does_checked {α : Type} {x : Except Fault α} (hd : Sound H d) :
    (discipline H).Does (checked x : Method H α) (fun a _ => x = .ok a) d := by
  cases x with
  | error e => exact does_raise
  | ok a => exact does_pure hd fun _ _ _ => rfl

/-- A question, whatever others do before it is asked and after it was answered. -/
theorem does_question {q : Question H} {post : q.Answer → Desk → Prop} (hd : Sound H d)
    (hq : ∀ d', Sound H d' → Later d d' → Admits d' q)
    (h : ∀ d₁ c d₂, Sound H d₁ → Later d d₁ → Sound H d₂ → Later (d₁.perform c q).2 d₂ → post (d₁.perform c q).1 d₂) :
    (discipline H).Does (question q) post d := by
  apply does_query hd hq
  intro d₁ a d₂ hd₁ hlater hanswer d₃ hd₃ _ hlater'
  obtain ⟨c, hperform⟩ := hanswer
  have hpost := h d₁ c d₃ hd₁ hlater hd₃
  rw [hperform] at hpost
  exact hpost hlater'

/-- What a call knows of a row it has read. -/
structure WasRead (H : Host) (owner : PyStr) (digest : List Char) (r : Row) (p : Package H.sha) : Prop where
  isAt : r.isAt owner digest = true
  compiled : Compiled H r.candidate p
  reports : ∀ role raw, Known role → r.report role = some raw → Evaluated H r.candidate role raw

/-- The package is kept under the key. -/
def Kept (H : Host) (d : Desk) (owner : PyStr) (digest : List Char) (p : Package H.sha) : Prop :=
  ∃ r ∈ d.library.rows, r.isAt owner digest = true ∧ Compiled H r.candidate p

theorem Kept.later {d' : Desk} {owner : PyStr} {digest : List Char} {p : Package H.sha} (h : Kept H d owner digest p)
    (hlater : Later d d') : Kept H d' owner digest p := by
  obtain ⟨r, hr, hat, hp⟩ := h
  obtain ⟨r', hr', hrow⟩ := hlater.rows r hr
  refine ⟨r', hr', ?_, ?_⟩
  · rw [isAt_of_candidate hrow.candidate]
    exact hat
  · rw [hrow.candidate]
    exact hp

theorem does_fetchRow {owner : PyStr} {digest : List Char} (hd : Sound H d) :
    (discipline H).Does (fetchRow owner digest)
      (fun rp d => WasRead H owner digest rp.1 rp.2 ∧ Kept H d owner digest rp.2) d := by
  unfold fetchRow
  apply does_bind hd (does_checked hd)
  intro _ d₁ hd₁ _ _
  apply does_bind (M := fun found d => ∀ r, (found : Option Row) = some r →
    ∃ p, WasRead H owner digest r p ∧ Kept H d owner digest p) hd₁
  · refine does_question hd₁ (fun _ _ _ => trivial) ?_
    intro d₂ c d₃ hd₂ _ _ hlater r hfind
    have hmem := List.mem_of_find?_eq_some hfind
    have hat := List.find?_some hfind
    obtain ⟨p, hp⟩ := hd₂.shelved.compiled r hmem
    have hkept : Kept H d₂ owner digest p := ⟨r, hmem, hat, hp⟩
    exact ⟨p, ⟨hat, hp, hd₂.shelved.reports r hmem⟩, hkept.later hlater⟩
  · intro found d₂ hd₂ _ hfound
    cases hopen : openRow H digest found with
    | error e => exact does_raise
    | ok rp =>
      obtain ⟨hrow, hparsed⟩ := openRow_ok hopen
      obtain ⟨p, hread, hkept⟩ := hfound rp.1 hrow
      have hp : p = rp.2 := Except.ok.inj (hread.compiled.parsed.symm.trans hparsed)
      rw [hp] at hread hkept
      exact does_pure hd₂ fun _ _ hlater => ⟨hread, hkept.later hlater⟩

/-! ## The calls -/

theorem does_true {α : Type} {m : Method H α} {post : α → Desk → Prop} (h : (discipline H).Does m post d) :
    (discipline H).Does m (fun _ _ => True) d :=
  h.weaken fun _ _ _ => trivial

/-- A question that only reads, whatever is read. -/
theorem does_read {q : Question H} (hd : Sound H d) (hq : ∀ d', Admits d' q) :
    (discipline H).Does (question q) (fun _ _ => True) d :=
  does_question hd (fun d' _ _ => hq d') fun _ _ _ _ _ _ _ => trivial

theorem digestValue_strOf {chars : List Char} (h : digestShape chars = true) : digestValue (strOf chars) = .ok chars := by
  unfold digestValue strOf
  dsimp only
  rw [PyStr.mapM_ofChar]
  dsimp only
  rw [if_pos h]

/-- What `add` inserts compiles again to what it was compiled to. -/
theorem compiled_of_submission {owner : PyStr} (draft : Submission) {name digest : List Char} {p : Package H.sha}
    (howner : identifier (.str owner) = .ok name) (hp : compileDraft H.sha draft.value = .ok p) (hdigest : p.digest = .ok digest) :
    Compiled H ⟨owner, digest, p.name, p.version, canonicalText draft.value⟩ p := by
  refine ⟨?_, compileDraft_canonical draft.keyed hp, hdigest, rfl, rfl⟩
  unfold checkKey
  have hshape : digestShape digest = true := by
    rw [(verifyPackage_ok hdigest).1]
    exact H.shaped _
  rw [howner, ok_bind, digestValue_strOf hshape, ok_bind]

theorem does_add {owner : PyStr} {draft : Submission} (hd : Sound H d) :
    (discipline H).Does (add owner draft) (fun _ _ => True) d := by
  unfold add
  apply does_bind hd (does_checked hd)
  intro name d₁ hd₁ _ howner
  apply does_bind hd₁ (does_checked hd₁)
  intro p d₂ hd₂ _ hp
  apply does_bind hd₂ (does_checked hd₂)
  intro digest d₃ hd₃ _ hdigest
  unfold keep
  apply does_bind hd₃ (does_read hd₃ fun _ => by trivial)
  intro existing d₄ hd₄ _ _
  cases existing with
  | some stored =>
    refine does_ite (fun _ => does_raise) fun _ => ?_
    apply does_bind hd₄ (does_fetchRow hd₄)
    intro _ d₅ hd₅ _ _
    exact does_pure hd₅ fun _ _ _ => trivial
  | none =>
    apply does_bind hd₄ (does_read hd₄ fun _ => by trivial)
    intro (count : ℕ) d₅ hd₅ _ _
    refine does_ite (fun _ => does_raise) fun _ => ?_
    apply does_bind hd₅ (does_read hd₅ fun _ => by exact ⟨p, compiled_of_submission draft howner hp hdigest⟩)
    intro inserted d₆ hd₆ _ _
    apply does_bind hd₆ (does_checked hd₆)
    intro _ d₇ hd₇ _ _
    exact does_pure hd₇ fun _ _ _ => trivial

theorem does_status {owner : PyStr} {digest : List Char} (hd : Sound H d) :
    (discipline H).Does (status owner digest) (fun _ _ => True) d := by
  unfold status
  apply does_bind hd (does_fetchRow hd)
  intro rp d₁ hd₁ _ _
  exact does_true (does_checked hd₁)

theorem does_statuses {owner : PyStr} (digests : List (List Char)) :
    ∀ {d}, Sound H d → (discipline H).Does (statuses owner digests) (fun _ _ => True) d := by
  induction digests with
  | nil => exact fun hd => does_pure hd fun _ _ _ => trivial
  | cons digest rest ih =>
    intro d hd
    apply does_bind hd (does_status hd)
    intro s d₁ hd₁ _ _
    apply does_bind hd₁ (ih hd₁)
    intro more d₂ hd₂ _ _
    exact does_pure hd₂ fun _ _ _ => trivial

theorem does_catalog {owner : PyStr} (hd : Sound H d) :
    (discipline H).Does (catalog owner) (fun _ _ => True) d := by
  unfold catalog
  apply does_bind hd (does_checked hd)
  intro _ d₁ hd₁ _ _
  apply does_bind hd₁ (does_read hd₁ fun _ => by trivial)
  intro digests d₂ hd₂ _ _
  exact does_statuses digests hd₂

theorem does_verifySource {owner : PyStr} {p : Package H.sha} (hd : Sound H d) :
    (discipline H).Does (verifySource owner p) (fun _ _ => True) d := by
  unfold verifySource
  apply does_bind hd (does_checked hd)
  intro origin d₁ hd₁ _ _
  refine does_ite (fun _ => does_raise) fun _ => ?_
  apply does_bind hd₁ (does_read hd₁ fun _ => by trivial)
  intro answer d₂ hd₂ _ _
  exact does_true (does_checked hd₂)

/-- An evaluation records what it measured of the package that is kept. -/
theorem does_evaluateStored {owner : PyStr} {digest : List Char} {cases : List Case} {adapter : Adapter} {role : String}
    {timeout : Option ℚ} (hd : Sound H d) :
    (discipline H).Does (evaluateStored owner digest cases adapter role timeout) (fun _ _ => True) d := by
  unfold evaluateStored
  refine does_ite (fun _ => does_raise) fun hrole => ?_
  have hknown : Known role := by
    unfold Known
    by_contra hother
    exact hrole (not_or.mp hother)
  apply does_bind hd (does_fetchRow hd)
  rintro ⟨r, p⟩ d₁ hd₁ _ ⟨_, hkept⟩
  refine does_ite (fun _ => does_raise) fun _ => ?_
  apply does_bind hd₁ (does_read hd₁ fun _ => by exact hknown)
  intro started d₂ hd₂ hlater₂ _
  apply does_bind hd₂ (does_checked hd₂)
  intro revision d₃ hd₃ hlater₃ _
  apply does_bind hd₃ (does_verifySource hd₃)
  intro _ d₄ hd₄ hlater₄ _
  apply does_bind (M := fun graded _ => ∃ turns, (graded : Except Fault Report) = evaluate p cases adapter role timeout turns) hd₄
  · refine does_question hd₄ (fun _ _ _ => trivial) ?_
    intro _ c _ _ _ _ _
    exact ⟨c.turns, rfl⟩
  intro graded d₅ hd₅ hlater₅ hgraded
  obtain ⟨turns, hgraded⟩ := hgraded
  apply does_bind hd₅ (does_checked hd₅)
  intro report d₆ hd₆ hlater₆ hreport
  apply does_bind hd₆ (does_fetchRow hd₆)
  intro rp d₇ hd₇ hlater₇ _
  refine does_ite (fun _ => does_raise) fun _ => ?_
  have hkept₇ := hkept.later ((((hlater₂.trans hlater₃).trans hlater₄).trans hlater₅).trans (hlater₆.trans hlater₇))
  apply does_bind (M := fun _ _ => True) hd₇
  · refine does_question hd₇ (fun d' _ hlater => ?_) fun _ _ _ _ _ _ _ => trivial
    obtain ⟨r, hr, hat, hcompiled⟩ := hkept₇.later hlater
    exact ⟨hknown, r, hr, hat, p, cases, adapter, timeout, turns, report, hcompiled, hgraded.symm.trans hreport, rfl⟩
  intro recorded d₈ hd₈ _ _
  apply does_bind hd₈ (does_checked hd₈)
  intro _ d₉ hd₉ _ _
  exact does_pure hd₉ fun _ _ _ => trivial

/-- A release that was put together from a row as it was read. -/
def ReleaseRead (H : Host) (owner : PyStr) (digest : List Char) (release : Release) : Prop :=
  ∃ r p s, WasRead H owner digest r p ∧ statusOf r p = .ok s ∧ Assembled H r p s release

theorem does_release {owner : PyStr} {digest : List Char} (hd : Sound H d) :
    (discipline H).Does (release owner digest) (fun a _ => ReleaseRead H owner digest a) d := by
  unfold release
  apply does_bind hd (does_fetchRow hd)
  rintro ⟨r, p⟩ d₁ hd₁ _ ⟨hread, _⟩
  apply does_bind hd₁ (does_status hd₁)
  intro s d₂ hd₂ _ _
  refine does_ite (fun _ => does_raise) fun _ => ?_
  apply does_bind hd₂ (does_verifySource hd₂)
  intro _ d₃ hd₃ _ _
  refine (does_checked hd₃).weaken fun a _ ha => ?_
  obtain ⟨s', hs', _⟩ := of_bind_ok ha
  exact ⟨r, p, s', hread, hs', assemble_ok hs' ha⟩

theorem does_prepareRelease {owner : PyStr} {digest : List Char} (hd : Sound H d) :
    (discipline H).Does (prepareRelease owner digest) (fun _ _ => True) d := by
  unfold prepareRelease
  apply does_bind hd (does_release hd)
  intro r d₁ hd₁ _ _
  exact does_pure hd₁ fun _ _ _ => trivial

/-- The token stands for a grant of these terms. -/
def Issued (H : Host) (d : Desk) (owner : PyStr) (digest : List Char) (audience purpose : PyStr) (token : List Char) : Prop :=
  ∃ g ∈ d.library.grants, g.offer.tokenHash = H.sha (encodeUtf8 token) ∧ g.offer.owner = owner ∧ g.offer.digest = digest ∧
    g.offer.audience = audience ∧ g.offer.purpose = purpose ∧ Decided d g.offer

theorem Issued.later {d' : Desk} {owner : PyStr} {digest : List Char} {audience purpose : PyStr} {token : List Char}
    (h : Issued H d owner digest audience purpose token) (hlater : Later d d') : Issued H d' owner digest audience purpose token := by
  obtain ⟨g, hg, ht, ho, hd, ha, hp, hdecided⟩ := h
  obtain ⟨g', hg', hoffer, _⟩ := hlater.grants g hg
  refine ⟨g', hg', ?_⟩
  rw [hoffer]
  exact ⟨ht, ho, hd, ha, hp, hdecided.later hlater⟩

theorem grant_mem {L L' : Library} {o : Offer} (h : L.grant H.toHexSha o = .ok L') : { offer := o } ∈ L'.grants := by
  unfold Library.grant at h
  obtain ⟨_, h⟩ := unless_ok h
  obtain rfl := event_ok h
  exact List.mem_append_right _ (List.mem_singleton_self _)

/-- A grant that was recorded is there. -/
theorem does_grant {o : Offer} (hd : Sound H d) (ho : Decided d o) :
    (discipline H).Does (question (.grant o)) (fun a d => a = .ok () → ∃ g ∈ d.library.grants, g.offer = o) d := by
  refine does_question hd (fun _ _ hlater => ho.later hlater) ?_
  intro d₁ c d₂ _ _ _ hlater hok
  cases hgrant : d₁.library.grant H.toHexSha o with
  | error e =>
    have herror : ((d₁.perform c (Question.grant (H := H) o)).1 : Except Fault Unit) = .error e := by
      unfold Desk.perform
      dsimp only
      rw [hgrant]
      rfl
    rw [herror] at hok
    cases hok
  | ok L' =>
    have hstate : (d₁.perform c (Question.grant (H := H) o)).2 = { d₁ with library := L' } := by
      unfold Desk.perform
      dsimp only
      rw [hgrant]
      rfl
    rw [hstate] at hlater
    obtain ⟨g, hg, hoffer, _⟩ := hlater.grants _ (grant_mem hgrant)
    exact ⟨g, hg, hoffer⟩

theorem does_issue {request : ApprovalRequest} {i : Issue} {summary : Summary} (hd : Sound H d)
    (hdecided : ∀ token, Decided d ⟨H.sha (encodeUtf8 token), request.owner, request.basePackageDigest, request.releaseDigest,
      request.audience, request.purpose, i.expiresAt, i.decisionId⟩) :
    (discipline H).Does (issue request i summary)
      (fun token d => Issued H d request.owner request.basePackageDigest request.audience request.purpose token) d := by
  unfold issue
  apply does_bind hd (does_read hd fun _ => by trivial)
  intro (token : List Char) d₁ hd₁ hlater₁ _
  apply does_bind hd₁ (does_prepareRelease hd₁)
  intro again d₂ hd₂ hlater₂ _
  refine does_ite (fun _ => does_raise) fun _ => ?_
  have hdecided₂ := (hdecided token).later (hlater₁.trans hlater₂)
  apply does_bind hd₂ (does_grant hd₂ hdecided₂)
  intro granted d₃ hd₃ hlater₃ hgranted
  apply does_bind hd₃ (does_checked hd₃)
  intro _ d₄ hd₄ hlater₄ hok
  apply does_pure hd₄
  intro d₅ _ hlater₅
  obtain ⟨g, hg, hoffer⟩ := hgranted hok
  have hissued : Issued H d₃ request.owner request.basePackageDigest request.audience request.purpose token := by
    refine ⟨g, hg, ?_⟩
    rw [hoffer]
    exact ⟨rfl, rfl, rfl, rfl, rfl, hdecided₂.later hlater₃⟩
  exact hissued.later (hlater₄.trans hlater₅)

/-- What the owner was asked and decided is noted. -/
theorem does_authorize {request : ApprovalRequest} (hd : Sound H d) :
    (discipline H).Does (question (.authorize request)) (fun answer d => ∀ decision,
      (answer : AuthorizerAnswer) = .decision decision → (request, decision) ∈ d.decisions) d := by
  refine does_question hd (fun _ _ _ => trivial) ?_
  intro d₁ c d₂ _ _ _ hlater decision hdecision
  have hanswer : c.authorizer = .decision decision := hdecision
  have hstate : (d₁.perform c (Question.authorize (H := H) request)).2 =
      { d₁ with decisions := d₁.decisions ++ [(request, decision)] } := by
    unfold Desk.perform
    dsimp only
    rw [hanswer]
    rfl
  rw [hstate] at hlater
  exact hlater.decisions (List.mem_append_right _ (List.mem_singleton_self _))

/-- A reading of the clock is noted. -/
theorem does_clock (hd : Sound H d) :
    (discipline H).Does (question .clock) (fun now d => (now : ℚ) ∈ d.readings) d := by
  refine does_question hd (fun _ _ _ => trivial) ?_
  intro d₁ c d₂ _ _ _ hlater
  exact hlater.readings (List.mem_append_right _ (List.mem_singleton_self _))

theorem agrees_iff {decision : Decision} {request : ApprovalRequest} : decision.agrees request = true ↔
    decision.approved = true ∧ decision.privacyReviewed = true ∧ decision.rightsReviewed = true ∧
      decision.owner = request.owner ∧ decision.releaseDigest = request.releaseDigest ∧
      decision.audience = request.audience ∧ decision.purpose = request.purpose := by
  unfold Decision.agrees
  simp only [Bool.and_eq_true, decide_eq_true_eq, and_assoc]

theorem does_approve {owner : PyStr} {digest : List Char} {audience purpose : PyStr} (hd : Sound H d) :
    (discipline H).Does (approve owner digest audience purpose)
      (fun token d => Issued H d owner digest audience purpose token) d := by
  unfold approve
  apply does_bind hd (does_checked hd)
  intro _ d₁ hd₁ _ _
  refine does_ite (fun _ => does_raise) fun _ => ?_
  refine does_ite (fun _ => does_raise) fun _ => ?_
  apply does_bind hd₁ (does_prepareRelease hd₁)
  intro summary d₂ hd₂ _ _
  apply does_bind hd₂ (does_authorize hd₂)
  intro answer d₃ hd₃ _ hanswer
  cases answer with
  | raised => exact does_raise
  | other => exact does_raise
  | decision decision =>
    have hasked := hanswer decision rfl
    dsimp only
    split
    · exact does_raise
    · next expiresAt hexpires =>
      refine does_ite (fun _ => does_raise) fun hagrees => ?_
      apply does_bind hd₃ (does_clock hd₃)
      intro (now : ℚ) d₄ hd₄ hlater₄ hnow
      refine does_ite (fun _ => does_raise) fun hfuture => ?_
      apply does_bind hd₄ (does_clock hd₄)
      intro (later : ℚ) d₅ hd₅ hlater₅ hlate
      refine does_ite (fun _ => does_raise) fun hsoon => ?_
      apply does_bind hd₅ (does_checked hd₅)
      intro _ d₆ hd₆ hlater₆ _
      refine does_issue hd₆ fun token => ?_
      exact ⟨_, decision, hlater₆.decisions (hlater₅.decisions (hlater₄.decisions hasked)), Bool.not_eq_false _ ▸ hagrees, rfl,
        rfl, rfl, rfl, rfl, rfl, hexpires, now, hlater₆.readings (hlater₅.readings hnow), later, hlater₆.readings hlate,
        not_le.mp hfuture, not_lt.mp hsoon⟩

/-- The token was used up for a release its owner had approved, and the release came from a row whose
evaluations were passed. -/
structure Delivered (H : Host) (d : Desk) (owner : PyStr) (digest : List Char) (audience purpose : PyStr) (token : List Char)
    (p : Package H.sha) (release : Release) : Prop where
  spent : ∃ x ∈ d.handed, x.offer.tokenHash = H.sha (encodeUtf8 token) ∧ x.offer.owner = owner ∧ x.offer.digest = digest ∧
    x.offer.releaseDigest = release.digest ∧ x.offer.audience = audience ∧ x.offer.purpose = purpose ∧ Decided d x.offer
  released : ∃ r s, WasRead H owner digest r p ∧ Releasable r p s ∧ Assembled H r p s release

theorem Delivered.later {d' : Desk} {owner : PyStr} {digest : List Char} {audience purpose : PyStr} {token : List Char}
    {p : Package H.sha} {release : Release} (h : Delivered H d owner digest audience purpose token p release)
    (hlater : Later d d') : Delivered H d' owner digest audience purpose token p release := by
  obtain ⟨x, hx, ht, ho, hd, hr, ha, hp, hdecided⟩ := h.spent
  exact ⟨⟨x, hlater.handed hx, ht, ho, hd, hr, ha, hp, hdecided.later hlater⟩, h.released⟩

theorem does_consumed {owner : PyStr} {digest : List Char} {audience : PyStr} {token : List Char} {purpose : PyStr}
    (hd : Sound H d) :
    (discipline H).Does (question (.consume owner digest audience token purpose)) (fun answer d => ∀ p release,
      (answer : Except Fault (Package H.sha × Release)) = .ok (p, release) →
        Delivered H d owner digest audience purpose token p release) d := by
  refine does_question hd (fun _ _ _ => trivial) ?_
  intro d₁ c d₂ hd₁ _ _ hlater p release hok
  have hperform : (d₁.perform c (Question.consume (H := H) owner digest audience token purpose)) =
      d₁.handOut c.now (d₁.library.consume H owner digest audience token purpose c.verifier c.now) := rfl
  rw [hperform] at hok hlater
  cases hconsume : d₁.library.consume H owner digest audience token purpose c.verifier c.now with
  | error e =>
    rw [hconsume] at hok
    cases hok
  | ok r =>
    obtain ⟨a, o, L'⟩ := r
    rw [hconsume] at hok hlater
    obtain rfl := Except.ok.inj hok
    obtain ⟨⟨hsound, _⟩, g, hout, rfl⟩ := consume_keeps hd₁ hconsume
    obtain ⟨ht, ho, hdigest, hr, ha, hp, _, _⟩ := serves_iff.mp hout.serves
    obtain ⟨r, hr', s, hat, hcompiled, hreleasable, hassembled⟩ := hout.released
    have hdecided : Decided d₂ g.offer := (hd₁.granted.decided g hout.mem).later
      ((consume_keeps hd₁ hconsume).1.2.trans hlater)
    exact ⟨⟨⟨g.offer, c.now⟩, hlater.handed (List.mem_append_right _ (List.mem_singleton_self _)), ht, ho, hdigest, hr, ha, hp,
      hdecided⟩, r, s, ⟨hat, hcompiled, hd₁.shelved.reports r hr'⟩, hreleasable, hassembled⟩

theorem does_consume {owner : PyStr} {digest : List Char} {audience : PyStr} {token : List Char} {purpose : String}
    (hd : Sound H d) :
    (discipline H).Does (consume owner digest audience token purpose)
      (fun a d => Delivered H d owner digest audience (PyStr.ofText purpose) token a.1 a.2) d := by
  unfold consume
  apply does_bind hd (does_checked hd)
  intro _ d₁ hd₁ _ _
  refine does_ite (fun _ => does_raise) fun _ => ?_
  apply does_bind hd₁ (does_consumed hd₁)
  intro consumed d₂ hd₂ _ hconsumed
  cases hok : (consumed : Except Fault (Package H.sha × Release)) with
  | error e => exact does_raise
  | ok a =>
    apply does_pure hd₂
    intro d₃ _ hlater
    exact (hconsumed a.1 a.2 hok).later hlater

theorem does_equipped {owner : PyStr} {digest : List Char} {tools : List PyStr} (hd : Sound H d) :
    (discipline H).Does (equipped owner digest tools) (fun p _ => ∀ tool ∈ p.requirements, tool.map CodePoint.ofChar ∈ tools) d := by
  unfold equipped
  apply does_bind hd (does_fetchRow hd)
  intro rp d₁ hd₁ _ _
  refine does_ite (fun _ => does_raise) fun htools => does_pure hd₁ fun _ _ _ => ?_
  intro tool htool
  have hall := List.all_eq_true.mp (Bool.not_eq_false _ ▸ htools) tool htool
  exact List.contains_iff_mem.mp hall

/-- What a call that takes a token returns was approved. -/
def Approved (H : Host) (isOne : List Char → Bool) (d : Desk) : Call → Reply → Prop
  | .exportTo owner digest audience token, reply =>
    ∃ p release, reply = .archive release.archive ∧ Delivered H d owner digest audience (PyStr.ofText "export") token p release
  | .activate owner digest audience token _, reply =>
    ∃ p release, reply = .files p.instructionFiles ∧ Delivered H d owner digest audience (PyStr.ofText "activate") token p release
  | .activateForMini owner digest audience token _, reply =>
    ∃ envelope p release sent, reply = .envelope envelope ∧
      Delivered H d owner digest audience (PyStr.ofText "activate") token p release ∧ ReleaseRead H owner digest sent ∧
      buildMiniActivationEnvelope H.sha isOne sent.files audience sent.digest = .ok envelope
  | .approve owner digest audience purpose, reply => ∃ token, reply = .token token ∧ Issued H d owner digest audience purpose token
  | _, _ => True

theorem does_method {isOne : List Char → Bool} (call : Call) (hd : Sound H d) :
    (discipline H).Does (Call.method (H := H) isOne call) (fun reply d => Approved H isOne d call reply) d := by
  cases call with
  | add owner draft =>
    apply does_bind hd (does_add hd)
    intro _ _ hd₁ _ _
    exact does_pure hd₁ fun _ _ _ => trivial
  | status owner digest =>
    apply does_bind hd (does_status hd)
    intro _ _ hd₁ _ _
    exact does_pure hd₁ fun _ _ _ => trivial
  | catalog owner =>
    apply does_bind hd (does_catalog hd)
    intro _ _ hd₁ _ _
    exact does_pure hd₁ fun _ _ _ => trivial
  | evaluate owner digest cases adapter role timeout =>
    apply does_bind hd (does_evaluateStored hd)
    intro _ _ hd₁ _ _
    exact does_pure hd₁ fun _ _ _ => trivial
  | prepareRelease owner digest =>
    apply does_bind hd (does_prepareRelease hd)
    intro _ _ hd₁ _ _
    exact does_pure hd₁ fun _ _ _ => trivial
  | approve owner digest audience purpose =>
    apply does_bind hd (does_approve hd)
    intro token _ hd₁ _ hissued
    exact does_pure hd₁ fun _ _ hlater => ⟨token, rfl, hissued.later hlater⟩
  | exportTo owner digest audience token =>
    apply does_bind (M := fun archive d => Approved H isOne d (.exportTo owner digest audience token) (.archive archive)) hd
    · unfold exportRelease
      apply does_bind hd (does_consume hd)
      intro a d₁ hd₁ _ ha
      exact does_pure hd₁ fun _ _ hlater => ⟨a.1, a.2, rfl, ha.later hlater⟩
    · intro archive _ hd₁ _ ha
      obtain ⟨p, release, hreply, hdelivered⟩ := ha
      exact does_pure hd₁ fun _ _ hlater => ⟨p, release, hreply, hdelivered.later hlater⟩
  | activate owner digest audience token tools =>
    apply does_bind (M := fun files d => Approved H isOne d (.activate owner digest audience token tools) (.files files)) hd
    · unfold SkillForge.activate
      apply does_bind hd (does_equipped hd)
      intro _ d₁ hd₁ _ _
      apply does_bind hd₁ (does_consume hd₁)
      intro a d₂ hd₂ _ ha
      exact does_pure hd₂ fun _ _ hlater => ⟨a.1, a.2, rfl, ha.later hlater⟩
    · intro files _ hd₁ _ ha
      obtain ⟨p, release, hreply, hdelivered⟩ := ha
      exact does_pure hd₁ fun _ _ hlater => ⟨p, release, hreply, hdelivered.later hlater⟩
  | activateForMini owner digest audience token tools =>
    apply does_bind (M := fun envelope d => Approved H isOne d (.activateForMini owner digest audience token tools)
      (.envelope envelope)) hd
    · unfold SkillForge.activateForMini
      apply does_bind hd (does_equipped hd)
      intro p d₁ hd₁ _ _
      apply does_bind hd₁ (does_release hd₁)
      intro sent d₂ hd₂ _ hsent
      apply does_bind hd₂ (does_consume hd₂)
      intro a d₃ hd₃ _ ha
      apply does_bind hd₃ (does_checked hd₃)
      intro _ d₄ hd₄ hlater₄ _
      apply does_bind hd₄ (does_checked hd₄)
      intro _ d₅ hd₅ hlater₅ _
      refine does_ite (fun _ => does_raise) fun _ => ?_
      cases henvelope : buildMiniActivationEnvelope H.sha isOne sent.files audience sent.digest with
      | error e => exact does_raise
      | ok envelope =>
        exact does_pure hd₅ fun _ _ hlater => ⟨envelope, a.1, a.2, sent, rfl,
          ha.later ((hlater₄.trans hlater₅).trans hlater), hsent, henvelope⟩
    · intro envelope _ hd₁ _ ha
      obtain ⟨envelope', p, release, sent, hreply, hdelivered, hrest⟩ := ha
      exact does_pure hd₁ fun _ _ hlater => ⟨envelope', p, release, sent, hreply, hdelivered.later hlater, hrest⟩
  | revoke owner digest =>
    apply does_bind (M := fun _ _ => True) hd
    · unfold revokeStored
      apply does_bind hd (does_fetchRow hd)
      intro rp d₁ hd₁ _ hrow
      apply does_bind (M := fun _ _ => True) hd₁
      · refine does_question hd₁ (fun d' _ hlater => ?_) fun _ _ _ _ _ _ _ => trivial
        obtain ⟨r, hr, hat, _⟩ := hrow.2.later hlater
        exact ⟨r, hr, hat⟩
      · intro revoked d₂ hd₂ _ _
        exact does_true (does_checked hd₂)
    · intro _ _ hd₁ _ _
      exact does_pure hd₁ fun _ _ _ => trivial

/-! ## Runs -/

/-- What a finished call returned was approved. -/
def Own (H : Host) (isOne : List Char → Bool) (outcome : Call × Except Fault Reply) (d : Desk) : Prop :=
  ∀ reply, outcome.2 = .ok reply → Approved H isOne d outcome.1 reply

theorem works_fulfils (isOne : List Char → Bool) :
    (works H isOne).Fulfils (discipline H).protocol (Sound H) (Own H isOne) where
  keeps := (discipline H).keeps
  stable hd hr := (hr hd).1
  answers _ c _ _ := ⟨c, rfl⟩
  outside e := e.elim
  program call d hd := by
    apply Prog.Safe.bind ?_ (does_method call hd ())
    intro r d' hr d'' hrely reply hreply
    obtain ⟨r, l⟩ := r
    cases hreply
    exact (hr d'' hrely).2

variable {isOne : List Char → Bool} {steps : List SystemEvent} {w : System H}

theorem sound_of_run (h : Run (System.Step H isOne) { state := {} } steps w) :
    Sound H w.state ∧ w.SafeTo (discipline H).protocol (Own H isOne) := by
  obtain ⟨hrely, hsafe⟩ := Pool.run_safeTo (works_fulfils isOne) h sound_empty (Pool.safeTo_start _)
  exact ⟨(hrely sound_empty).1, hsafe⟩

theorem storedReport_of_evaluated {r : Row} {p : Package H.sha} {role : String} (hp : Compiled H r.candidate p)
    (h : ∀ raw, r.report role = some raw → Evaluated H r.candidate role raw) :
    ∃ report, storedReport r p role = .ok report ∧ (report.any passedTrue = true → ∃ cases adapter timeout turns graded,
      evaluate p cases adapter role timeout turns = .ok graded ∧ graded.passed = true ∧
        r.report role = some graded.toJson) := by
  cases hraw : r.report role with
  | none =>
    refine ⟨none, ?_, fun hpassed => absurd hpassed Bool.false_ne_true⟩
    unfold storedReport
    rw [hraw]
  | some raw =>
    obtain ⟨p', cases, adapter, timeout, turns, graded, hp', hevaluate, rfl⟩ := h raw hraw
    obtain rfl := hp.unique hp'
    have hgraded := evaluate_graded hevaluate
    refine ⟨_, hgraded.storedReport hraw, fun hpassed => ⟨cases, adapter, timeout, turns, graded, hevaluate, ?_, rfl⟩⟩
    rw [Option.any_some, (graded.fieldIs_ordered []).2.2.2] at hpassed
    exact hpassed

/-! ## A package comes and goes -/

section

theorem checked_bind {α β : Type} {x : Except Fault α} {a : α} {f : α → Method H β} (h : x = .ok a) :
    (checked x >>= f) = f a := by
  rw [h]
  rfl

/-- The system with one package, just added. -/
def stocked (H : Host) (owner : PyStr) (draft : Submission) (p : Package H.sha) (digest : List Char) : System H :=
  { state := { library :=
      { rows := [{ candidate := ⟨owner, digest, p.name, p.version, canonicalText draft.value⟩ }]
        events := [⟨owner, digest, "compiled", H.sha (encodeUtf8 [])⟩] } }
    runs := (∅ : Dict ℕ _).set 0 (.done (.add owner draft, .ok (.digest digest))) }

/-- A draft that compiles can be added. -/
theorem run_add (isOne : List Char → Bool) {owner : PyStr} (draft : Submission) {name digest : List Char} {p : Package H.sha}
    (howner : identifier (.str owner) = .ok name) (hp : compileDraft H.sha draft.value = .ok p) (hdigest : p.digest = .ok digest)
    (c : Choice) :
    Run (System.Step H isOne) { state := {} } [.start 0 (.add owner draft), .resume 0 c, .resume 0 c, .resume 0 c]
      (stocked H owner draft p digest) := by
  have hadd : (add owner draft : Method H (List Char)) = keep owner draft p digest := by
    unfold add
    rw [checked_bind howner, checked_bind hp, checked_bind hdigest]
  have hprogram : (works H isOne).program (.add owner draft) =
      ((do pure (.digest (← keep owner draft p digest)) : Method H Reply) ()).bind fun r => .done (.add owner draft, r.1) := by
    rw [← hadd]
    rfl
  apply Pool.run?_run
  simp only [Pool.run?, Pool.step?, hprogram]
  rfl

/-- A package that is kept can be revoked. -/
theorem run_revoke (isOne : List Char → Bool) (w : System H) (owner : PyStr) (digest : List Char) {r : Row} {p : Package H.sha} {L' : Library} (n : ℕ)
    (c : Choice) (hfree : w.runs.contains n = false) (hkey : checkKey owner digest = .ok ())
    (hopen : openRow H digest (w.state.library.rows.find? (Row.isAt owner digest)) = .ok (r, p))
    (hrevoke : w.state.library.revoke H.toHexSha owner digest = .ok L') :
    ∃ w', Run (System.Step H isOne) w [.start n (.revoke owner digest), .resume n c, .resume n c] w' ∧
      w'.state = { w.state with library := L' } := by
  obtain ⟨after, hafter⟩ : ∃ after : Option Row → Prog (Question H) Question.Answer (Call × Except Fault Reply), after = fun found =>
    ((((checked (openRow H digest found) : Method H _) >>= fun _ =>
      (question (.revoke owner digest) >>= fun revoked => checked revoked : Method H Unit)) >>= fun _ =>
        (pure .revoked : Method H Reply)) ()).bind fun r => .done (.revoke owner digest, r.1) := ⟨_, rfl⟩
  have hprogram : (works H isOne).program (.revoke owner digest) = .ask (.row owner digest) after := by
    rw [hafter]
    unfold works Call.method revokeStored fetchRow
    dsimp only
    rw [checked_bind hkey]
    rfl
  have hstart : System.Step H isOne w (.start n (.revoke owner digest))
      { w with runs := w.runs.set n (.ask (.row owner digest) after) } := by
    unfold System.Step Pool.Step Pool.step?
    dsimp only
    rw [hfree, if_neg Bool.false_ne_true, hprogram]
  have hrow := Pool.Step.resume (W := works H isOne) (w := { w with runs := w.runs.set n (.ask (.row owner digest) after) }) c
    (Dict.get?_set_self _ _ _)
  have hasks : after (w.state.library.rows.find? (Row.isAt owner digest)) = .ask (.revoke owner digest) fun revoked =>
      ((do
        let _ ← checked revoked
        pure .revoked : Method H Reply) ()).bind fun r => .done (.revoke owner digest, r.1) := by
    rw [hafter]
    dsimp only
    rw [checked_bind hopen]
    rfl
  have hlast := Pool.Step.resume (W := works H isOne) (w := ⟨w.state, (w.runs.set n (.ask (.row owner digest) after)).set n
    (after (w.state.library.rows.find? (Row.isAt owner digest)))⟩) c (by rw [hasks]; exact Dict.get?_set_self _ _ _)
  refine ⟨_, .cons hstart (.cons hrow (.cons hlast (.nil _))), ?_⟩
  show ((w.state.commit (plain (w.state.library.revoke H.toHexSha owner digest))).2 : Desk) = _
  rw [hrevoke]
  rfl

end

/-- A host that knows the digests of the skill that sorts rows. -/
def keptHost : Host where
  sha := keptSha
  shaped := keptSha_shaped
  zip _ _ := []
  hasVerifier := true
  hasAuthorizer := true

def keptOwner : PyStr := PyStr.ofText "owner"

def keptDigest : List Char := "7fb52f19857092a1ce84f16a49879c5f2e64ea07469ca8e1b70151dc8d712ed8".toList

/-- The draft is added and the package revoked. -/
theorem run_kept (isOne : List Char → Bool) : ∃ (steps : List SystemEvent) (w : System keptHost),
    Run (System.Step keptHost isOne) { state := {} } steps w ∧ w.state.library.rows.length = 1 ∧
      trail w.state.library.events keptOwner keptDigest = [.close] := by
  obtain ⟨p, hp, hdigest⟩ : ∃ p : Package keptHost.sha, compileDraft keptHost.sha keptValue = .ok p ∧ p.digest = .ok keptDigest :=
    kept_compiles
  have howner : identifier (.str keptOwner) = .ok "owner".toList := by decide
  have c : Choice := ⟨.raised, .raised, fun _ => ⟨[], true, [], fun _ => .raised⟩, 0, []⟩
  have hcompiled := compiled_of_submission (H := keptHost) ⟨keptValue, kept_keyed⟩ howner hp hdigest
  have hadd := run_add (H := keptHost) isOne ⟨keptValue, kept_keyed⟩ howner hp hdigest c
  have hrevoke : (stocked keptHost keptOwner ⟨keptValue, kept_keyed⟩ p keptDigest).state.library.revoke keptHost.toHexSha keptOwner
      keptDigest = .ok
        { rows := [{ candidate := ⟨keptOwner, keptDigest, p.name, p.version, canonicalText keptValue⟩, revoked := true, revision := 1 }]
          grants := []
          events := [⟨keptOwner, keptDigest, "compiled", keptHost.sha (encodeUtf8 [])⟩,
            ⟨keptOwner, keptDigest, "revoked", keptHost.sha (encodeUtf8 [])⟩] } := by
    unfold Library.revoke Library.event
    refine (if_neg ?_).trans ?_
    · exact Nat.not_le.mpr (lt_of_le_of_lt (List.length_filter_le _ _) (by show 1 < 10000; omega))
    · unfold Library.update stocked
      dsimp only
      rw [List.map_cons, List.map_nil, if_pos (by exact isAt_iff.mpr ⟨rfl, rfl⟩)]
      rfl
  obtain ⟨w, hlast, hstate⟩ := run_revoke isOne (stocked keptHost keptOwner ⟨keptValue, kept_keyed⟩ p keptDigest)
    keptOwner keptDigest 1 c rfl hcompiled.key hcompiled.openRow hrevoke
  refine ⟨_, w, hadd.append hlast, ?_, ?_⟩
  · rw [hstate]
    rfl
  · rw [hstate]
    unfold trail
    dsimp only
    rw [List.filter_cons_of_pos (by decide), List.filter_cons_of_pos (by decide)]
    rfl

/-! ## What every run keeps -/

/-- A package was evaluated by its origin and by another agent, and passed both times. -/
def Qualified (p : Package H.sha) (r : Row) : Prop :=
  ∃ cases adapter timeout turns own cases' adapter' timeout' turns' other,
    evaluate p cases adapter "internal" timeout turns = .ok own ∧ own.passed = true ∧
    r.internalReport = some own.toJson ∧ own.agentId = p.originId.map CodePoint.ofChar ∧
    evaluate p cases' adapter' "transfer" timeout' turns' = .ok other ∧ other.passed = true ∧
    r.transferReport = some other.toJson ∧ other.agentId ≠ p.originId.map CodePoint.ofChar

/-- Each row opens as the package its draft compiles to and its status is shown; where it shows a skill as
transferred, the skill is qualified and not revoked. -/
structure Integral (H : Host) (L : Library) : Prop where
  keys : (L.rows.map fun r => (r.candidate.owner, r.candidate.digest)).Nodup
  versions : (L.rows.map fun r => (r.candidate.owner, r.candidate.name, r.candidate.version)).Nodup
  opens : ∀ r ∈ L.rows, ∃ p s,
    openRow H r.candidate.digest (L.rows.find? (Row.isAt r.candidate.owner r.candidate.digest)) = .ok (r, p) ∧
      statusOf r p = .ok s ∧ (s.state = .transferVerified → r.revoked = false ∧ Qualified p r)

/-- A token is used up at most once, in time and for what its owner decided; and a call that takes a token has
returned only what was approved for it. -/
structure Honoured (H : Host) (isOne : List Char → Bool) (w : System H) : Prop where
  once : (w.state.handed.map fun x => x.offer.tokenHash).Nodup
  decided : ∀ x ∈ w.state.handed, x.time < x.offer.expiresAt ∧ Decided w.state x.offer
  approved : ∀ n call reply, w.runs.get? n = some (.done (call, .ok reply)) → Approved H isOne w.state call reply

/-- The audit trail of a package is a ledger of its unused grants: since the last evaluation was begun there are
no more handouts than approvals of the same release, and once the package is revoked there are none, nor is it
evaluated again. -/
structure Audited (H : Host) (L : Library) (owner : PyStr) (digest : List Char) : Prop where
  ledger : ∃ l, Run Ledger.Step {} (trail L.events owner digest) l ∧ l.held = unused H.toHexSha L.grants owner digest ∧
    ∀ r ∈ L.rows, r.isAt owner digest = true → l.closed = r.revoked
  covered : ∀ before after release, trail L.events owner digest = before ++ after →
    (∀ deed ∈ before.getLast?, Ledger.Empties deed) →
      (unused H.toHexSha L.grants owner digest).count release + after.count (.spend release) ≤ after.count (.approve release)
  final : ∀ before after release, trail L.events owner digest = before ++ .close :: after →
    .spend release ∉ after ∧ .void ∉ after

end

end LilTweak.SkillForge
