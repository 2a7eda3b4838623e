import LilTweak.Lib.Discipline
import LilTweak.Lib.Pool
import LilTweak.SkillForge.Evaluation
import LilTweak.SkillForge.Recompiling
import Mathlib

/-!
# The library

The library keeps the canonical text of a draft beside the name, the version and the digest it compiled to,
and compiles it again for every call. Each statement outside a transaction, and each transaction, is one
question to the database; the host's callbacks, its clock and its nonces are questions too, so calls of any
number of connections may meet between any two of them.
-/

namespace LilTweak.SkillForge

open LilTweak.Lib

/-- SHA-256, whose digests are written in hexadecimal digits. -/
structure HexSha where
  sha : Bytes → List Char
  shaped : ∀ b, digestShape (sha b) = true

/-- What the host brings: the digests, the bytes of an archive, and which callbacks it has. -/
structure Host extends HexSha where
  zip : List Char → Files → Bytes
  hasVerifier : Bool
  hasAuthorizer : Bool

/-- A draft as it is handed over: every mapping in it has distinct keys. -/
structure Submission where
  value : PyJson
  keyed : value.Keyed

/-! ## Tables -/

/-- What no statement changes in a row of `skill_forge_candidates`. -/
structure Candidate where
  owner : PyStr
  digest : List Char
  name : List Char
  version : List Char
  draft : List Char
deriving DecidableEq

/-- A row of `skill_forge_candidates`. -/
structure Row where
  candidate : Candidate
  internalReport : Option (List Char) := none
  transferReport : Option (List Char) := none
  sourceVerified : Bool := false
  revision : ℕ := 0
  revoked : Bool := false
deriving DecidableEq

/-- What no statement changes in a row of `skill_forge_grants`. -/
structure Offer where
  tokenHash : List Char
  owner : PyStr
  digest : List Char
  releaseDigest : List Char
  audience : PyStr
  purpose : PyStr
  expiresAt : Int
  decisionId : PyStr
deriving DecidableEq

/-- A row of `skill_forge_grants`. -/
structure Grant where
  offer : Offer
  used : Bool := false
deriving DecidableEq

/-- A row of `skill_forge_events`. -/
structure Event where
  owner : PyStr
  digest : List Char
  action : String
  detailDigest : List Char
deriving DecidableEq

structure Library where
  rows : List Row := []
  grants : List Grant := []
  events : List Event := []
deriving DecidableEq

/-- `WHERE owner=? AND digest=?`. -/
def Row.isAt (owner : PyStr) (digest : List Char) (r : Row) : Bool :=
  r.candidate.owner = owner && r.candidate.digest = digest

/-- `WHERE owner=? AND digest=? AND used=0`. -/
def Grant.isUnused (owner : PyStr) (digest : List Char) (g : Grant) : Bool :=
  g.offer.owner = owner && g.offer.digest = digest && !g.used

/-- `row[role + "_report"]`. -/
def Row.report (r : Row) (role : String) : Option (List Char) :=
  if role = "internal" then r.internalReport else r.transferReport

/-- `SET {role}_report=?`. -/
def Row.withReport (role : String) (report : Option (List Char)) (r : Row) : Row :=
  if role = "internal" then { r with internalReport := report } else { r with transferReport := report }

/-- The row is there and not revoked. -/
def Row.isOpen (owner : PyStr) (digest : List Char) (r : Row) : Bool := r.isAt owner digest && !r.revoked

/-- What a new evaluation makes of a row. -/
def Row.restarted (role : String) (r : Row) : Row :=
  { r.withReport role none with sourceVerified := false, revision := r.revision + 1 }

/-- The row is there, not revoked and of this revision. -/
def Row.isCurrent (owner : PyStr) (digest : List Char) (revision : ℕ) (r : Row) : Bool :=
  r.isAt owner digest && r.revision = revision && !r.revoked

namespace Library

variable (H : HexSha) (L : Library)

/-- An update of some rows. -/
def update (p : Row → Bool) (f : Row → Row) : Library := { L with rows := L.rows.map fun r => if p r then f r else r }

/-- `UPDATE skill_forge_grants SET used=1` for some grants. -/
def useUp (p : Grant → Bool) : Library :=
  { L with grants := L.grants.map fun g => if p g then { g with used := true } else g }

/-- `_event`. -/
def event (owner : PyStr) (digest : List Char) (action : String) (detail : List Char) : Except Fault Library :=
  if 10000 ≤ (L.events.filter fun e => e.owner = owner).length then .error (.forge "audit_capacity_exceeded")
  else .ok { L with events := L.events ++ [⟨owner, digest, action, H.sha (encodeUtf8 detail)⟩] }

/-- The `INSERT` of `add`, with its event. -/
def insert (c : Candidate) : Except Fault Library :=
  if (L.rows.any fun r => r.isAt c.owner c.digest ||
      (r.candidate.owner = c.owner && r.candidate.name = c.name && r.candidate.version = c.version)) = true then
    .error (.python "IntegrityError")
  else event H { L with rows := L.rows ++ [{ candidate := c }] } c.owner c.digest "compiled" []

/-- The first transaction of `evaluate`, which returns the new revision. -/
def start (owner : PyStr) (digest : List Char) (role : String) : Except Fault (ℕ × Library) :=
  match L.rows.find? (Row.isOpen owner digest) with
  | none => .error (.forge "skill_revoked")
  | some r => do
    let L' ← event H ((L.update (Row.isOpen owner digest) (Row.restarted role)).useUp (Grant.isUnused owner digest)) owner
      digest "evaluation_started" role.toList
    .ok (r.revision + 1, L')

/-- The second transaction of `evaluate`. -/
def record (owner : PyStr) (digest : List Char) (role : String) (revision : ℕ) (report : List Char) : Except Fault Library :=
  if L.rows.any (Row.isCurrent owner digest revision) = false then .error (.forge "stale_evaluation")
  else event H (L.update (Row.isCurrent owner digest revision)
    fun r => { r.withReport role (some report) with sourceVerified := true }) owner digest "evaluation_recorded" report

/-- The `INSERT` of `approve`, with its event. -/
def grant (o : Offer) : Except Fault Library :=
  if (L.grants.any fun g => g.offer.tokenHash = o.tokenHash ||
      (g.offer.owner = o.owner && g.offer.decisionId = o.decisionId)) = true then .error (.forge "owner_decision_replayed")
  else event H { L with grants := L.grants ++ [{ offer := o }] } o.owner o.digest "owner_approved" o.releaseDigest

/-- The transaction of `revoke`. -/
def revoke (owner : PyStr) (digest : List Char) : Except Fault Library :=
  event H ((L.update (Row.isAt owner digest) fun r => { r with revoked := true, revision := r.revision + 1 }).useUp
    (Grant.isUnused owner digest)) owner digest "revoked" []

end Library

/-! ## A row and its package -/

section
variable (H : Host)

/-- What `_row` does with the row it found. -/
def openRow (digest : List Char) (found : Option Row) : Except Fault (Row × Package H.sha) :=
  match found with
  | none => .error (.forge "skill_not_found")
  | some r => do
    let p ← parseJson r.candidate.draft >>= compileDraft H.sha
    let d ← p.digest
    if d ≠ digest ∨ p.name ≠ r.candidate.name ∨ p.version ≠ r.candidate.version then
      .error (.forge "stored_skill_integrity_mismatch")
    else .ok (r, p)

/-- What `_row` checks of its arguments. -/
def checkKey (owner : PyStr) (digest : List Char) : Except Fault Unit := do
  let _ ← identifier (.str owner)
  let _ ← digestValue (strOf digest)
  .ok ()

variable {H}

/-- The fields of a mapping with these names. -/
def record (fields : List (String × PyJson)) : List (PyStr × PyJson) := fields.map fun f => (PyStr.ofText f.1, f.2)

/-- `fields.get(name) == text`. -/
def fieldIs (fields : List (PyStr × PyJson)) (name : String) (text : PyStr) : Bool :=
  match Entries.lookup (PyStr.ofText name) fields with
  | some (.str s) => s = text
  | _ => false

/-- `fields.get("passed") is True`. -/
def passedTrue (fields : List (PyStr × PyJson)) : Bool :=
  match Entries.lookup (PyStr.ofText "passed") fields with
  | some (.bool b) => b
  | _ => false

/-- `_report`. -/
def storedReport (r : Row) (p : Package H.sha) (role : String) : Except Fault (Option (List (PyStr × PyJson))) :=
  match r.report role with
  | none => .ok none
  | some raw => do
    let digest ← p.digest
    match ← parseJson raw with
    | .obj fields =>
      if fieldIs fields "role" (PyStr.ofText role) = false ∨
          fieldIs fields "package_digest" (digest.map CodePoint.ofChar) = false ∨
          fieldIs fields "agent_id" (p.originId.map CodePoint.ofChar) ≠ decide (role = "internal") then
        .error (.forge "stored_report_integrity_mismatch")
      else .ok (some fields)
    | _ => .error (.forge "stored_report_integrity_mismatch")

/-- The state `status` shows. -/
inductive SkillState
  | compiled
  | internalVerified
  | transferVerified
  | revoked
deriving DecidableEq

structure Status where
  name : List Char
  version : List Char
  digest : List Char
  state : SkillState
  revision : ℕ
  internal : Option (List (PyStr × PyJson))
  transfer : Option (List (PyStr × PyJson))

/-- What `status` makes of a row. -/
def statusOf (r : Row) (p : Package H.sha) : Except Fault Status := do
  let internal ← storedReport r p "internal"
  let transfer ← storedReport r p "transfer"
  let state := if r.revoked = true then .revoked
    else if internal.any passedTrue = true ∧ r.sourceVerified = true then
      if transfer.any passedTrue = true then .transferVerified else .internalVerified
    else .compiled
  .ok ⟨p.name, p.version, r.candidate.digest, state, r.revision, internal, transfer⟩

/-- The origin of a package. -/
def originOf (p : Package H.sha) : Except Fault (List Char × List Char × List Char) := do
  let content ← fileAt "manifest.json" p.files
  match ← parseBytes content with
  | .obj fields => item "origin" fields >>= readOrigin
  | _ => .error (.python "TypeError")

/-- What the host's verifier says of an origin. -/
inductive VerifierAnswer
  | raised
  | answer (accepted : Bool)

def VerifierAnswer.check : VerifierAnswer → Except Fault Unit
  | .raised => .error (.forge "source_verification_failed")
  | .answer accepted => if accepted = true then .ok () else .error (.forge "source_evidence_unverified")

/-- A release: its digest, its files and its archive. -/
structure Release where
  digest : List Char
  files : Files
  archive : Bytes

def reportValue (report : Option (List (PyStr × PyJson))) : PyJson := (report.map PyJson.obj).getD .null

/-- The evidence of a release. -/
def evidenceOf (digest : List Char) (s : Status) : PyJson :=
  .obj (record [("schema_version", .int 1), ("base_package_digest", strOf digest),
    ("source_status", .str (PyStr.ofText "verified_by_trusted_host")), ("internal", reportValue s.internal),
    ("transfer", reportValue s.transfer),
    ("permission_notice", .str (PyStr.ofText "No credentials or execution permissions are transferred."))])

variable (H)

/-- `_archive`. -/
def archiveOf (name : List Char) (files : Files) : Except Fault Bytes :=
  if 2 * 1024 * 1024 < (H.zip name files).length then .error (.forge "archive_size_limit") else .ok (H.zip name files)

variable {H}

/-- The rest of `_release`, behind its checks; the reports are read from the row again. -/
def assemble (r : Row) (p : Package H.sha) : Except Fault Release := do
  let s ← statusOf r p
  let files ← attachEvidence p (evidenceOf r.candidate.digest s)
  let digest ← verifyPackage H.sha files none
  let archive ← archiveOf H p.name files
  .ok ⟨digest, files, archive⟩

end

/-! ## The text of a report -/

def Result.value (r : Result) : PyJson :=
  .obj (record [("case_id", .str r.caseId), ("passed", .bool r.passed), ("reason", .str (PyStr.ofText r.reason)),
    ("request_digest", strOf r.requestDigest), ("session_digest", strOf r.sessionDigest),
    ("output_digest", strOf r.outputDigest)])

def Report.fields (r : Report) : List (PyStr × PyJson) :=
  record [("package_digest", strOf r.packageDigest), ("suite_digest", strOf r.suiteDigest), ("agent_id", .str r.agentId),
    ("role", .str (PyStr.ofText r.role)), ("results", .arr (r.results.map Result.value)),
    ("expected_cases", .int r.expectedCases), ("passed", .bool r.passed)]

/-- `Report.to_json`. -/
def Report.toJson (r : Report) : List Char := canonicalText (.obj r.fields)

end LilTweak.SkillForge
