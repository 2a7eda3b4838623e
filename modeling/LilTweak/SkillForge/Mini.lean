import LilTweak.SkillForge.Library
import Mathlib

/-!
# The activation envelope

A release is handed to Mini as one JSON text for one audience. The text holds every file of the release as
it is, so whoever reads it has files that verify to the release's digest, with the evidence of an internal
and a transfer evaluation by two different agents among them.
-/

namespace LilTweak.SkillForge

open LilTweak.Lib

/-- The text of a field. -/
def textField (fields : List (PyStr × PyJson)) (name : String) : Option PyStr :=
  match Entries.lookup (PyStr.ofText name) fields with
  | some (.str s) => some s
  | _ => none

/-- The mapping of a field. -/
def objField (fields : List (PyStr × PyJson)) (name : String) : Option (List (PyStr × PyJson)) :=
  match Entries.lookup (PyStr.ofText name) fields with
  | some (.obj inner) => some inner
  | _ => none

/-- A value that equals the integer one; `isOne` says it of the literal of a float. -/
def equalsOne (isOne : List Char → Bool) : Option PyJson → Bool
  | some (.int i) => i = 1
  | some (.bool b) => b
  | some (.float literal) => isOne literal
  | _ => false

/-- A report in the evidence, of this role and for this package. -/
def qualifies (report : List (PyStr × PyJson)) (role : String) (base : PyStr) : Bool :=
  fieldIs report "role" (PyStr.ofText role) && passedTrue report && fieldIs report "package_digest" base

section
variable (sha : Bytes → List Char) (isOne : List Char → Bool)

/-- `_qualified_evidence`. -/
def qualifiedEvidence (files : Files) : Except Fault Unit :=
  match files.get? (PyStr.ofText "evidence.json") with
  | none => .error (.forge "mini_bridge_evidence_missing")
  | some raw => do
    match ← parseBytes raw with
    | .obj evidence =>
      match textField evidence "base_package_digest", objField evidence "internal", objField evidence "transfer" with
      | some base, some internal, some transfer =>
        if equalsOne isOne (Entries.lookup (PyStr.ofText "schema_version") evidence) = false ∨
            fieldIs evidence "source_status" (PyStr.ofText "verified_by_trusted_host") = false ∨
            fieldIs evidence "permission_notice"
              (PyStr.ofText "No credentials or execution permissions are transferred.") = false then
          .error (.forge "mini_bridge_evidence_invalid")
        else do
          let _ ← digestValue (.str base)
          match textField internal "agent_id", textField transfer "agent_id" with
          | some agent, some other =>
            if qualifies internal "internal" base = false ∨ qualifies transfer "transfer" base = false ∨ agent = other then
              .error (.forge "mini_bridge_qualification_invalid")
            else do
              let _ ← identifier (.str agent)
              let _ ← identifier (.str other)
              .ok ()
          | _, _ => .error (.forge "mini_bridge_qualification_invalid")
      | _, _, _ => .error (.forge "mini_bridge_evidence_invalid")
    | _ => .error (.forge "mini_bridge_evidence_invalid")

/-- The texts of the files, in order. -/
def textFiles : List (PyStr × Bytes) → Except Fault (List (PyStr × PyJson))
  | [] => .ok []
  | (path, content) :: rest =>
    match decodeUtf8 content with
    | none => .error (.forge "mini_bridge_non_text_file")
    | some t => do
      let more ← textFiles rest
      .ok ((path, strOf t) :: more)

/-- The value of an envelope. -/
def envelopeValue (audience : PyStr) (expected : List Char) (texts : List (PyStr × PyJson)) : PyJson :=
  .obj (record [("schema_version", .int 1), ("issuer", .str (PyStr.ofText "skill-forge-v1")), ("audience", .str audience),
    ("purpose", .str (PyStr.ofText "activate")), ("release_digest", strOf expected), ("files", .obj texts)])

/-- `build_mini_activation_envelope`. -/
def buildMiniActivationEnvelope (files : Files) (audience : PyStr) (releaseDigest : List Char) : Except Fault Bytes := do
  let _ ← identifier (.str audience)
  let expected ← digestValue (strOf releaseDigest)
  let verified ← verifyPackage sha files none
  if verified ≠ expected then .error (.forge "mini_bridge_release_digest_mismatch")
  else do
    qualifiedEvidence isOne files
    let texts ← textFiles (sortedFiles files)
    .ok (canonical (envelopeValue audience expected texts))

end

end LilTweak.SkillForge
