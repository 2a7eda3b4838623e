import LilTweak.SkillForge.Mini
import Mathlib

/-!
# The calls of the library

Every call as a program that asks the database and the host, and the pool of any number of calls at work on
one database.
-/

namespace LilTweak.SkillForge

open LilTweak.Lib

/-- What the owner is asked to approve. -/
structure ApprovalRequest where
  owner : PyStr
  basePackageDigest : List Char
  releaseDigest : List Char
  archiveSha256 : List Char
  audience : PyStr
  purpose : PyStr
deriving DecidableEq

/-- What the owner decides; a decision that expires at no integer has no time. -/
structure Decision where
  owner : PyStr
  releaseDigest : List Char
  audience : PyStr
  purpose : PyStr
  approved : Bool
  privacyReviewed : Bool
  rightsReviewed : Bool
  expiresAt : Option Int
  decisionId : PyStr
deriving DecidableEq

/-- What comes of the authorizer. -/
inductive AuthorizerAnswer
  | raised
  | other
  | decision (d : Decision)

/-- What `approve` asks of a decision besides its time. -/
def Decision.agrees (d : Decision) (request : ApprovalRequest) : Bool :=
  d.approved && d.privacyReviewed && d.rightsReviewed && d.owner = request.owner &&
    d.releaseDigest = request.releaseDigest && d.audience = request.audience && d.purpose = request.purpose

/-- What `prepare_release` returns. -/
structure Summary where
  basePackageDigest : List Char
  releaseDigest : List Char
  archiveSha256 : List Char
deriving DecidableEq

section
variable (H : Host)

/-- What a call asks the database and the host. -/
inductive Question
  | row (owner : PyStr) (digest : List Char)
  | version (owner : PyStr) (name version : List Char)
  | count (owner : PyStr)
  | listing (owner : PyStr)
  | insert (c : Candidate)
  | start (owner : PyStr) (digest : List Char) (role : String)
  | record (owner : PyStr) (digest : List Char) (role : String) (revision : ℕ) (report : List Char)
  | grant (o : Offer)
  | consume (owner : PyStr) (digest : List Char) (audience : PyStr) (token : List Char) (purpose : PyStr)
  | revoke (owner : PyStr) (digest : List Char)
  | verify (owner : PyStr) (origin : List Char × List Char × List Char)
  | evaluation (p : Package H.sha) (cases : List Case) (adapter : Adapter) (role : String) (timeout : Option ℚ)
  | authorize (request : ApprovalRequest)
  | clock
  | token

variable {H}

def Question.Answer : Question H → Type
  | row .. => Option Row
  | version .. => Option (List Char)
  | count .. => ℕ
  | listing .. => List (List Char)
  | insert .. => Except Fault Unit
  | start .. => Except Fault ℕ
  | record .. => Except Fault Unit
  | grant .. => Except Fault Unit
  | consume .. => Except Fault (Package H.sha × Release)
  | revoke .. => Except Fault Unit
  | verify .. => VerifierAnswer
  | evaluation .. => Except Fault Report
  | authorize .. => AuthorizerAnswer
  | clock => ℚ
  | token => List Char

variable (H)

abbrev Method := Act (Question H) Question.Answer Unit Fault

variable {H}

/-- Ask a question. -/
def question (q : Question H) : Method H q.Answer := Act.query q

/-- A computation of its own. -/
def checked {α : Type} : Except Fault α → Method H α
  | .ok a => pure a
  | .error e => Act.raise e

/-- `_row`. -/
def fetchRow (owner : PyStr) (digest : List Char) : Method H (Row × Package H.sha) := do
  let _ ← checked (checkKey owner digest)
  let found : Option Row ← question (.row owner digest)
  checked (openRow H digest found)

/-- `add`, once the draft is compiled. -/
def keep (owner : PyStr) (draft : Submission) (p : Package H.sha) (digest : List Char) : Method H (List Char) := do
  let existing : Option (List Char) ← question (.version owner p.name p.version)
  match existing with
  | some stored =>
    if stored ≠ digest then Act.raise (.forge "immutable_version_conflict")
    else do
      let _ ← fetchRow owner digest
      pure digest
  | none => do
    let count : ℕ ← question (.count owner)
    if 100 ≤ count then Act.raise (.forge "library_capacity_exceeded")
    else do
      let inserted : Except Fault Unit ← question (.insert ⟨owner, digest, p.name, p.version, canonicalText draft.value⟩)
      let _ ← checked inserted
      pure digest

/-- `add`. -/
def add (owner : PyStr) (draft : Submission) : Method H (List Char) := do
  let _ ← checked (identifier (.str owner))
  let p ← checked (compileDraft H.sha draft.value)
  let digest ← checked p.digest
  keep owner draft p digest

/-- `status`. -/
def status (owner : PyStr) (digest : List Char) : Method H Status := do
  let (r, p) ← fetchRow owner digest
  checked (statusOf r p)

/-- The statuses of some rows, one after the other. -/
def statuses (owner : PyStr) : List (List Char) → Method H (List Status)
  | [] => pure []
  | digest :: rest => do
    let s ← status owner digest
    let more ← statuses owner rest
    pure (s :: more)

/-- `catalog`. -/
def catalog (owner : PyStr) : Method H (List Status) := do
  let _ ← checked (identifier (.str owner))
  let digests : List (List Char) ← question (.listing owner)
  statuses owner digests

/-- `_verify_source`. -/
def verifySource (owner : PyStr) (p : Package H.sha) : Method H Unit := do
  let origin ← checked (originOf p)
  if H.hasVerifier = false then Act.raise (.forge "source_verifier_unavailable")
  else do
    let answer : VerifierAnswer ← question (.verify owner origin)
    checked answer.check

/-- `evaluate`. -/
def evaluateStored (owner : PyStr) (digest : List Char) (cases : List Case) (adapter : Adapter) (role : String)
    (timeout : Option ℚ) : Method H Report :=
  if role ≠ "internal" ∧ role ≠ "transfer" then Act.raise (.forge "invalid_evaluation_role")
  else do
    let (r, p) ← fetchRow owner digest
    if r.revoked = true then Act.raise (.forge "skill_revoked")
    else do
      let started : Except Fault ℕ ← question (.start owner digest role)
      let revision ← checked started
      let _ ← verifySource owner p
      let graded : Except Fault Report ← question (.evaluation p cases adapter role timeout)
      let report ← checked graded
      let (r', _) ← fetchRow owner digest
      if r'.revoked = true ∨ r'.revision ≠ revision then Act.raise (.forge "stale_evaluation")
      else do
        let recorded : Except Fault Unit ← question (.record owner digest role revision report.toJson)
        let _ ← checked recorded
        pure report

/-- `_release`, outside a transaction. -/
def release (owner : PyStr) (digest : List Char) : Method H Release := do
  let (r, p) ← fetchRow owner digest
  let s ← status owner digest
  if s.state ≠ .transferVerified then Act.raise (.forge "release_not_verified")
  else do
    let _ ← verifySource owner p
    checked (assemble r p)

/-- `prepare_release`. -/
def prepareRelease (owner : PyStr) (digest : List Char) : Method H Summary := do
  let r ← release owner digest
  pure ⟨digest, r.digest, H.sha r.archive⟩

/-- When a grant expires, and by which decision. -/
structure Issue where
  expiresAt : Int
  decisionId : PyStr

/-- The end of `approve`: a token for what was decided, if the release is still the same. -/
def issue (request : ApprovalRequest) (i : Issue) (summary : Summary) : Method H (List Char) := do
  let token : List Char ← question .token
  let again ← prepareRelease request.owner request.basePackageDigest
  if again ≠ summary then Act.raise (.forge "stale_owner_decision")
  else do
    let granted : Except Fault Unit ← question (.grant ⟨H.sha (encodeUtf8 token), request.owner,
      request.basePackageDigest, request.releaseDigest, request.audience, request.purpose, i.expiresAt, i.decisionId⟩)
    let _ ← checked granted
    pure token

/-- `approve`. -/
def approve (owner : PyStr) (digest : List Char) (audience purpose : PyStr) : Method H (List Char) := do
  let _ ← checked (identifier (.str audience))
  if purpose ≠ PyStr.ofText "export" ∧ purpose ≠ PyStr.ofText "activate" then
    Act.raise (.forge "invalid_approval_purpose")
  else if H.hasAuthorizer = false then Act.raise (.forge "owner_authorizer_unavailable")
  else do
    let summary ← prepareRelease owner digest
    let request : ApprovalRequest := ⟨owner, digest, summary.releaseDigest, summary.archiveSha256, audience, purpose⟩
    let answer : AuthorizerAnswer ← question (.authorize request)
    match answer with
    | .raised => Act.raise (.forge "owner_authorization_failed")
    | .other => Act.raise (.forge "owner_approval_rejected")
    | .decision d =>
      match d.expiresAt with
      | none => Act.raise (.forge "owner_approval_rejected")
      | some expiresAt =>
        if d.agrees request = false then Act.raise (.forge "owner_approval_rejected")
        else do
          let now : ℚ ← question .clock
          if (expiresAt : ℚ) ≤ now then Act.raise (.forge "owner_approval_rejected")
          else do
            let later : ℚ ← question .clock
            if later + 900 < expiresAt then Act.raise (.forge "owner_approval_rejected")
            else do
              let _ ← checked (identifier (.str d.decisionId))
              issue request ⟨expiresAt, d.decisionId⟩ summary

/-- `_consume`. -/
def consume (owner : PyStr) (digest : List Char) (audience : PyStr) (token : List Char) (purpose : String) :
    Method H (Package H.sha × Release) := do
  let _ ← checked (identifier (.str audience))
  if ¬(16 ≤ token.length ∧ token.length ≤ 128) then Act.raise (.forge "invalid_grant")
  else do
    let consumed : Except Fault (Package H.sha × Release) ←
      question (.consume owner digest audience token (PyStr.ofText purpose))
    checked consumed

/-- `export`. -/
def exportRelease (owner : PyStr) (digest : List Char) (audience : PyStr) (token : List Char) : Method H Bytes := do
  let (_, r) ← consume owner digest audience token "export"
  pure r.archive

/-- The package of a digest, whose tools are all there. -/
def equipped (owner : PyStr) (digest : List Char) (tools : List PyStr) : Method H (Package H.sha) := do
  let (_, p) ← fetchRow owner digest
  if p.requirements.all (fun tool => tools.contains (tool.map CodePoint.ofChar)) = false then
    Act.raise (.forge "required_tools_missing")
  else pure p

/-- `activate`. -/
def activate (owner : PyStr) (digest : List Char) (audience : PyStr) (token : List Char) (tools : List PyStr) :
    Method H (List (PyStr × Bytes)) := do
  let _ ← equipped owner digest tools
  let (p, _) ← consume owner digest audience token "activate"
  pure p.instructionFiles

/-- `activate_for_mini`; `isOne` says of the literal of a float that it equals one. -/
def activateForMini (isOne : List Char → Bool) (owner : PyStr) (digest : List Char) (audience : PyStr)
    (token : List Char) (tools : List PyStr) : Method H Bytes := do
  let p ← equipped owner digest tools
  let r ← release owner digest
  let (consumed, _) ← consume owner digest audience token "activate"
  let d ← checked p.digest
  let d' ← checked consumed.digest
  if d' ≠ d then Act.raise (.forge "mini_bridge_stale_package")
  else checked (buildMiniActivationEnvelope H.sha isOne r.files audience r.digest)

/-- `revoke`. -/
def revokeStored (owner : PyStr) (digest : List Char) : Method H Unit := do
  let _ ← fetchRow owner digest
  let revoked : Except Fault Unit ← question (.revoke owner digest)
  checked revoked

/-! ## Calls at work -/

/-- A call. -/
inductive Call
  | add (owner : PyStr) (draft : Submission)
  | status (owner : PyStr) (digest : List Char)
  | catalog (owner : PyStr)
  | evaluate (owner : PyStr) (digest : List Char) (cases : List Case) (adapter : Adapter) (role : String)
      (timeout : Option ℚ)
  | prepareRelease (owner : PyStr) (digest : List Char)
  | approve (owner : PyStr) (digest : List Char) (audience purpose : PyStr)
  | exportTo (owner : PyStr) (digest : List Char) (audience : PyStr) (token : List Char)
  | activate (owner : PyStr) (digest : List Char) (audience : PyStr) (token : List Char) (tools : List PyStr)
  | activateForMini (owner : PyStr) (digest : List Char) (audience : PyStr) (token : List Char) (tools : List PyStr)
  | revoke (owner : PyStr) (digest : List Char)

/-- What a call returns. -/
inductive Reply
  | digest (d : List Char)
  | status (s : Status)
  | catalog (l : List Status)
  | report (r : Report)
  | summary (s : Summary)
  | token (t : List Char)
  | archive (b : Bytes)
  | files (l : List (PyStr × Bytes))
  | envelope (b : Bytes)
  | revoked

/-- The program of a call. -/
def Call.method (isOne : List Char → Bool) : Call → Method H Reply
  | .add owner draft => do pure (.digest (← SkillForge.add owner draft))
  | .status owner digest => do pure (.status (← SkillForge.status owner digest))
  | .catalog owner => do pure (.catalog (← SkillForge.catalog owner))
  | .evaluate owner digest cases adapter role timeout => do
    pure (.report (← evaluateStored owner digest cases adapter role timeout))
  | .prepareRelease owner digest => do pure (.summary (← SkillForge.prepareRelease owner digest))
  | .approve owner digest audience purpose => do pure (.token (← SkillForge.approve owner digest audience purpose))
  | .exportTo owner digest audience token => do pure (.archive (← exportRelease owner digest audience token))
  | .activate owner digest audience token tools => do
    pure (.files (← SkillForge.activate owner digest audience token tools))
  | .activateForMini owner digest audience token tools => do
    pure (.envelope (← SkillForge.activateForMini isOne owner digest audience token tools))
  | .revoke owner digest => do
    let _ ← revokeStored owner digest
    pure .revoked

/-- What the host and the world decide at a question. -/
structure Choice where
  verifier : VerifierAnswer
  authorizer : AuthorizerAnswer
  turns : ℕ → Turn
  now : ℚ
  token : List Char

/-- A grant that was used up, and when. -/
structure Handout where
  offer : Offer
  time : ℚ

/-- The database; and, kept for the record, what the owner was asked and decided, what the clock showed, and
which grants were used up. -/
structure Desk where
  library : Library := {}
  decisions : List (ApprovalRequest × Decision) := []
  readings : List ℚ := []
  handed : List Handout := []

/-- The grants `_consume` may use up. -/
def Grant.serves (H : HexSha) (owner : PyStr) (digest : List Char) (audience : PyStr) (token : List Char) (purpose : PyStr)
    (releaseDigest : List Char) (now : ℚ) (g : Grant) : Bool :=
  g.offer.tokenHash = H.sha (encodeUtf8 token) && g.offer.owner = owner && g.offer.digest = digest &&
    g.offer.releaseDigest = releaseDigest && g.offer.audience = audience && g.offer.purpose = purpose &&
    now < g.offer.expiresAt && !g.used

/-- `_release`, inside a transaction. -/
def Library.release (H : Host) (L : Library) (owner : PyStr) (digest : List Char) (verifier : VerifierAnswer) :
    Except Fault (Package H.sha × Release) := do
  checkKey owner digest
  let (r, p) ← openRow H digest (L.rows.find? (Row.isAt owner digest))
  let s ← statusOf r p
  if s.state ≠ .transferVerified then .error (.forge "release_not_verified")
  else do
    let _ ← originOf p
    if H.hasVerifier = false then .error (.forge "source_verifier_unavailable")
    else do
      verifier.check
      let release ← assemble r p
      .ok (p, release)

/-- The transaction of `_consume`: the release is built again, and one grant for it is used up. -/
def Library.consume (H : Host) (L : Library) (owner : PyStr) (digest : List Char) (audience : PyStr) (token : List Char)
    (purpose : PyStr) (verifier : VerifierAnswer) (now : ℚ) : Except Fault ((Package H.sha × Release) × Offer × Library) := do
  let (p, release) ← L.release H owner digest verifier
  let serves := Grant.serves H.toHexSha owner digest audience token purpose release.digest now
  match L.grants.filter serves with
  | [g] => do
    let L' ← Library.event H.toHexSha (L.useUp serves) owner digest
      (if purpose = PyStr.ofText "export" then "export" else "activate") release.digest
    .ok ((p, release), g.offer, L')
  | _ => .error (.forge "invalid_stale_or_consumed_grant")

/-- The answer of a transaction, and what is committed: one that raises is rolled back. -/
def Desk.commit {α : Type} (d : Desk) : Except Fault (α × Library) → Except Fault α × Desk
  | .ok (a, L) => (.ok a, { d with library := L })
  | .error e => (.error e, d)

/-- The answer of `_consume`; what is committed is noted. -/
def Desk.handOut {α : Type} (d : Desk) (now : ℚ) : Except Fault (α × Offer × Library) → Except Fault α × Desk
  | .ok (a, o, L) => (.ok a, { d with library := L, handed := d.handed ++ [⟨o, now⟩] })
  | .error e => (.error e, d)

/-- What the authorizer answers is noted where it is a decision. -/
def Desk.note (d : Desk) (request : ApprovalRequest) : AuthorizerAnswer → Desk
  | .decision decision => { d with decisions := d.decisions ++ [(request, decision)] }
  | _ => d

/-- A transaction that returns nothing. -/
def plain (x : Except Fault Library) : Except Fault (Unit × Library) := x.map fun L => ((), L)

/-- The answer to a question, and what it does. -/
def Desk.perform (d : Desk) (c : Choice) : (q : Question H) → q.Answer × Desk
  | .row owner digest => (d.library.rows.find? (Row.isAt owner digest), d)
  | .version owner name version =>
    ((d.library.rows.find? fun r => r.candidate.owner = owner && r.candidate.name = name && r.candidate.version = version).map
      fun r => r.candidate.digest, d)
  | .count owner => ((d.library.rows.filter fun r => r.candidate.owner = owner).length, d)
  | .listing owner =>
    (((d.library.rows.filter fun r => r.candidate.owner = owner).insertionSort fun a b =>
      a.candidate.name < b.candidate.name ∨
        a.candidate.name = b.candidate.name ∧ a.candidate.version ≤ b.candidate.version).map fun r => r.candidate.digest, d)
  | .insert candidate => d.commit (plain (d.library.insert H.toHexSha candidate))
  | .start owner digest role => d.commit (d.library.start H.toHexSha owner digest role)
  | .record owner digest role revision report => d.commit (plain (d.library.record H.toHexSha owner digest role revision report))
  | .grant o => d.commit (plain (d.library.grant H.toHexSha o))
  | .consume owner digest audience token purpose =>
    d.handOut c.now (d.library.consume H owner digest audience token purpose c.verifier c.now)
  | .revoke owner digest => d.commit (plain (d.library.revoke H.toHexSha owner digest))
  | .verify _ _ => (c.verifier, d)
  | .evaluation p cases adapter role timeout => (evaluate p cases adapter role timeout c.turns, d)
  | .authorize request => (c.authorizer, d.note request c.authorizer)
  | .clock => (c.now, { d with readings := d.readings ++ [c.now] })
  | .token => (c.token, d)

variable (H)

/-- The calls at work on the library. -/
def works (isOne : List Char → Bool) :
    PoolSpec (Question H) Question.Answer (Call × Except Fault Reply) Desk Call Choice Empty where
  program call := (Call.method isOne call ()).bind fun r => .done (call, r.1)
  perform := Desk.perform
  outside e := e.elim

abbrev System := Pool (Question H) Question.Answer (Call × Except Fault Reply) Desk

abbrev SystemEvent := PoolEvent Call Choice Empty

/-- One step of the system. -/
abbrev System.Step (isOne : List Char → Bool) : System H → SystemEvent → System H → Prop := Pool.Step (works H isOne)

end

end LilTweak.SkillForge
