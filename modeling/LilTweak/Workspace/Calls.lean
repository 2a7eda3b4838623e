import LilTweak.Lib.Base64
import LilTweak.Lib.Dict
import LilTweak.Lib.Prog
import LilTweak.Workspace.Projects
import Mathlib

/-!
# Calls of the workspace

The functions of the workspace as programs that ask the database and the bucket. The text of a
record is written by `JSON.stringify`, which tells documents apart, so a record is modelled by the
document it is the text of.
-/

namespace LilTweak.Workspace

open LilTweak.Lib
open LilTweak.Worker (Runtime)

/-- What the code uses of its platform: SHA-256 in hexadecimal, and whether `localeCompare` puts a
string no later than another. -/
structure Platform extends Runtime where
  sha256 : List UInt8 → JsString
  localeBefore : JsString → JsString → Bool

/-! ## Records -/

def Requirement.toValue (x : Requirement) : Value :=
  .object [("id", .str x.id), ("text", .str x.text), ("status", .text x.status.written)]

def Milestone.toValue (x : Milestone) : Value :=
  .object [("id", .str x.id), ("title", .str x.title), ("target_date", (x.targetDate.map Value.str).getD .null),
    ("status", .text x.status.written)]

def BoardItem.toValue (x : BoardItem) : Value :=
  .object [("id", .str x.id), ("title", .str x.title), ("detail", .str x.detail), ("column", .text x.column.written)]

def ProjectNote.toValue (x : ProjectNote) : Value :=
  .object [("id", .str x.id), ("text", .str x.text), ("created_at", .str x.createdAt)]

def Attachment.toValue (x : Attachment) : Value :=
  .object [("id", .str x.id), ("filename", .str x.filename), ("media_type", .str x.mediaType),
    ("size_bytes", .num x.sizeBytes), ("sha256", .str x.sha256)]

/-- The document as a value, its fields in the order they are written. -/
def ProjectDocument.toValue (p : ProjectDocument) : Value :=
  .object [("schema_version", .text "project-workspace-v1"), ("id", .str p.id), ("revision", .num p.revision),
    ("name", .str p.name), ("description", .str p.description), ("status", .text p.status.written),
    ("requirements", .arr (p.requirements.map Requirement.toValue)),
    ("milestones", .arr (p.milestones.map Milestone.toValue)), ("board", .arr (p.board.map BoardItem.toValue)),
    ("notes", .arr (p.notes.map ProjectNote.toValue)), ("attachments", .arr (p.attachments.map Attachment.toValue)),
    ("created_at", .str p.createdAt), ("updated_at", .str p.updatedAt), ("model_call", .text "NO MODEL CALL"),
    ("model_tokens", .num 0)]

/-- The bytes of the record of a document. -/
def recordBytes (P : Platform) (p : ProjectDocument) : Nat := encodedByteLength (stringify P.numberText p.toValue)

/-- `MAX_PROJECT_DOCUMENT_BYTES`. -/
def maxProjectDocumentBytes : Nat := 256 * 1024

/-- `MAX_ATTACHMENT_BYTES`. -/
def maxAttachmentBytes : Nat := 1000000

/-- `MAX_PROJECT_ATTACHMENT_BYTES`. -/
def maxProjectAttachmentBytes : Nat := 2000000

/-- `Number.MAX_SAFE_INTEGER`. -/
def maxSafeInteger : Nat := 9007199254740991

/-- `projectRecord`. -/
def projectRecord (P : Platform) (p : ProjectDocument) : Checked ProjectDocument :=
  if maxProjectDocumentBytes < recordBytes P p then .error "Project document exceeds the 256 KB limit."
  else .ok p

/-- The revision a record is read with. -/
def readRevision (n : Nat) : Nat := if n ≤ maxSafeInteger then n else 0

/-- `decodeProject`. -/
def decodeProject (P : Platform) (record : ProjectDocument) : Checked ProjectDocument :=
  if maxProjectDocumentBytes < recordBytes P record then
    .error "Workspace project record exceeds its storage limit."
  else .ok { record with revision := readRevision record.revision }

/-- `requiredRevision`. -/
def requiredRevision (value : ℚ) : Checked ℚ :=
  if value.den = 1 ∧ 0 ≤ value ∧ value ≤ maxSafeInteger then .ok value else .error "Project revision is required."

/-! ## Attachments -/

/-- `bytesFromBase64`. -/
def bytesFromBase64 (value : Option Value) : Checked (List UInt8) :=
  match value with
  | some (.str s) =>
    if 1400000 < s.length then .error "Attachment content is invalid."
    else match atob s with
      | none => .error "Attachment content must be canonical base64."
      | some bytes =>
        if bytes = [] ∨ maxAttachmentBytes < bytes.length then
          .error "Attachment size must be between 1 byte and 1 MB."
        else .ok bytes
  | _ => .error "Attachment content is invalid."

/-- `optionalString(value, label, 128) || "application/octet-stream"`. -/
def mediaTypeFrom (value : Option Value) (label : String) : Checked JsString := do
  let mediaType ← optionalString value label 128
  .ok (if mediaType = [] then JsString.ofText "application/octet-stream" else mediaType)

/-- `attachmentKey`. -/
def attachmentKey (projectId attachmentId : JsString) : JsString :=
  JsString.ofText "projects/" ++ projectId ++ JsString.ofText "/" ++ attachmentId

/-- `projectHasAttachment`. -/
def projectHasAttachment (project : ProjectDocument) (attachment : Attachment) : Bool :=
  project.attachments.any fun item => decide (item = attachment)

/-- The bytes of all attachments of a project. -/
def attachmentTotal (attachments : List Attachment) : Nat :=
  attachments.foldl (fun total item => total + item.sizeBytes) 0

/-- An object of the bucket. -/
structure StoredFile where
  bytes : List UInt8
  contentType : JsString
  sha256 : JsString
  deriving DecidableEq

/-- `stableValue`. -/
def stableFields (P : Platform) (fields : List (JsString × Value)) : List (JsString × Value) :=
  fields.insertionSort fun a b => P.localeBefore a.1 b.1

mutual

def stableValue (P : Platform) : Value → Value
  | .arr items => .arr (stableItems P items)
  | .obj fields => .obj (stableFields P (stableEntries P fields))
  | v => v

def stableItems (P : Platform) : List Value → List Value
  | [] => []
  | v :: rest => stableValue P v :: stableItems P rest

def stableEntries (P : Platform) : List (JsString × Value) → List (JsString × Value)
  | [] => []
  | (key, v) :: rest => (key, stableValue P v) :: stableEntries P rest

end

/-- `exportDigest`. -/
def exportDigest (P : Platform) (value : Value) : JsString :=
  P.sha256 (encodeText (stringify P.numberText (stableValue P value)))

/-! ## Questions -/

inductive Query
  | draw
  | now
  | newId (call : Nat) (kind : String)
  | select (owner projectId : JsString)
  | insert (owner : JsString) (project : ProjectDocument)
  | update (owner : JsString) (project expected : ProjectDocument)
  | get (key : JsString)
  | put (key : JsString) (file : StoredFile)
  | delete (key : JsString)

/-- What a question is answered with; an update says whether it changed a row. -/
def Query.Reply : Query → Type
  | draw => Draws
  | now => JsString
  | newId .. => JsString
  | select .. => Option ProjectDocument
  | insert .. => Unit
  | update .. => Bool
  | get _ => Option StoredFile
  | put .. => Unit
  | delete _ => Unit

/-- `none` where the question throws. -/
def Query.Answer (q : Query) : Type := Option q.Reply

abbrev Problem := WorkspaceError ProjectDocument

/-- A program; its private state is the list of uploaded keys an import keeps. -/
abbrev Method := Act Query Query.Answer (List JsString) Problem

/-- Ask; what throws is thrown on. -/
def request (q : Query) : Method q.Reply := do
  let answer : Option q.Reply ← Act.query q
  match answer with
  | some reply => pure reply
  | none => Act.raise .storage

/-- What a check throws is thrown on. -/
def checked {α : Type} : Checked α → Method α
  | .ok a => pure a
  | .error message => Act.raise (.error message)

/-- `LoadedProject`. -/
structure LoadedProject where
  project : ProjectDocument
  record : ProjectDocument

/-- `loadProject`. -/
def loadProject (P : Platform) (owner projectId : JsString) : Method LoadedProject :=
  if validId "project" projectId = false then Act.raise (.error "Project ID is invalid.")
  else do
    let row : Option ProjectDocument ← request (.select owner projectId)
    match row with
    | none => Act.raise (.error "Project was not found.")
    | some record => do
      let project ← checked (decodeProject P record)
      pure ⟨project, record⟩

/-- What `writeProject` does after its `UPDATE` threw. -/
def reconcile (P : Platform) (project : ProjectDocument) (owner : JsString) (expected : ProjectDocument)
    (error : Problem) : Method Unit := do
  let current ← (loadProject P owner project.id).handle fun _ => Act.raise .indeterminate
  if current.record = project then pure ()
  else if current.record ≠ expected then Act.raise (.conflict (some current.project))
  else Act.raise error

/-- What `writeProject` throws where its `UPDATE` changed nothing. -/
def stale (P : Platform) (project : ProjectDocument) (owner : JsString) : Method Unit := do
  let current : Option ProjectDocument ← Act.handle (do
    let loaded ← loadProject P owner project.id
    pure (some loaded.project)) fun _ => pure none
  Act.raise (.conflict current)

/-- `writeProject` with `insert`. -/
def insertProject (P : Platform) (project : ProjectDocument) (owner : JsString) : Method Unit := do
  let record ← checked (projectRecord P project)
  request (.insert owner record)

/-- `writeProject` without `insert`. -/
def writeProject (P : Platform) (project : ProjectDocument) (owner : JsString) (expected : ProjectDocument) :
    Method Unit := do
  let record ← checked (projectRecord P project)
  -- a write that is found to have committed returns as one that changed a row
  let changes : Bool ← (request (.update owner record expected)).handle fun error => do
    reconcile P project owner expected error
    pure true
  if changes = false then stale P project owner else pure ()

/-- `createProject`. -/
def createProject (P : Platform) (call : Nat) (owner : JsString) (value : Value) : Method ProjectDocument := do
  let id : JsString ← request (.newId call "project")
  let d : Draws ← request .draw
  let project ← checked (sanitizedProject P.toRuntime d value (.fresh id))
  insertProject P project owner
  pure project

/-- `updateProject`. -/
def updateProject (P : Platform) (owner projectId : JsString) (value : Value) (expectedRevision : ℚ) :
    Method ProjectDocument := do
  let expected ← checked (requiredRevision expectedRevision)
  let existing ← loadProject P owner projectId
  if (existing.project.revision : ℚ) ≠ expected then Act.raise (.conflict (some existing.project))
  else do
    let d : Draws ← request .draw
    let sanitized ← checked (sanitizedProject P.toRuntime d value (.existing existing.project))
    let project := { sanitized with revision := existing.project.revision + 1 }
    writeProject P project owner existing.record
    pure project

/-- The project with one more attachment. -/
def attached (project : ProjectDocument) (attachment : Attachment) (now : JsString) : ProjectDocument :=
  { project with
    revision := project.revision + 1
    attachments := project.attachments ++ [attachment]
    updatedAt := now }

/-- The attachment a value describes. -/
def newAttachment (P : Platform) (value : Value) (bytes : List UInt8) (id : JsString) : Checked Attachment := do
  let filename ← portableFilename (value.field "filename")
  let mediaType ← mediaTypeFrom (value.field "media_type") "Attachment media type"
  .ok ⟨id, filename, mediaType, bytes.length, P.sha256 bytes⟩

/-- The handler of `attachFile`. -/
def attachFailed (key : JsString) (attachment : Attachment) (error : Problem) : Method ProjectDocument :=
  let cleanUp : Method ProjectDocument := do
    Act.handle (request (.delete key)) fun _ => pure ()
    Act.raise error
  match error with
  | .conflict (some current) => if projectHasAttachment current attachment then pure current else cleanUp
  | .indeterminate => Act.raise error
  | _ => cleanUp

/-- `attachFile`. -/
def attachFile (P : Platform) (call : Nat) (owner projectId : JsString) (value : Value) (expectedRevision : ℚ) :
    Method ProjectDocument := do
  let expected ← checked (requiredRevision expectedRevision)
  let existing ← loadProject P owner projectId
  if (existing.project.revision : ℚ) ≠ expected then Act.raise (.conflict (some existing.project))
  else if value.isObject = false then Act.raise (.error "Attachment data is required.")
  else do
    let bytes ← checked (bytesFromBase64 (value.field "content_base64"))
    if maxProjectAttachmentBytes < attachmentTotal existing.project.attachments + bytes.length then
      Act.raise (.error "Project attachment total exceeds 2 MB.")
    else do
      let id : JsString ← request (.newId call "attachment")
      let attachment ← checked (newAttachment P value bytes id)
      let now : JsString ← request .now
      let key := attachmentKey existing.project.id attachment.id
      let updated := attached existing.project attachment now
      Act.handle (do
        request (.put key ⟨bytes, attachment.mediaType, attachment.sha256⟩)
        writeProject P updated owner existing.record
        pure updated) (attachFailed key attachment)

/-! ## Export and import -/

/-- The checks of `exportProject` on an object of the bucket. -/
def exportable (P : Platform) (attachment : Attachment) (file : StoredFile) : Bool :=
  decide (file.bytes.length ≤ maxAttachmentBytes) && decide (file.bytes.length = attachment.sizeBytes) &&
    decide (P.sha256 file.bytes = attachment.sha256)

/-- The loop of `exportProject`. -/
def exportAttachments (P : Platform) (projectId : JsString) : List Attachment → Dict JsString Value →
    Method (Dict JsString Value)
  | [], content => pure content
  | attachment :: rest, content => do
    let file : Option StoredFile ← request (.get (attachmentKey projectId attachment.id))
    match file with
    | none => Act.raise (.attachment attachment.filename "is unavailable.")
    | some file =>
      if exportable P attachment file = false then
        Act.raise (.attachment attachment.filename "failed its integrity check.")
      else exportAttachments P projectId rest (content.set attachment.id (.str (btoa file.bytes)))

/-- `schema_version` of an export. -/
def exportSchema : JsString := JsString.ofText "project-workspace-export-v1"

/-- What the digest of an export is taken of. -/
def exportPayload (schema project content : Value) : List (JsString × Value) :=
  [(JsString.ofText "schema_version", schema), (JsString.ofText "project", project),
    (JsString.ofText "attachment_content", content)]

/-- `exportProject`. -/
def exportProject (P : Platform) (owner projectId : JsString) : Method Value := do
  let loaded ← loadProject P owner projectId
  let content ← exportAttachments P loaded.project.id loaded.project.attachments ∅
  let payload := exportPayload (.str exportSchema) loaded.project.toValue (.obj content.entries)
  pure (.obj (payload ++ [(JsString.ofText "export_sha256", .str (exportDigest P (.obj payload)))]))

/-- The integrity check of an imported attachment. -/
def importIntact (P : Platform) (item : Value) (bytes : List UInt8) : Bool :=
  match item.field "size_bytes", item.field "sha256" with
  | some (.num size), some (.str sha256) => decide (size = bytes.length) && decide (sha256 = P.sha256 bytes)
  | _, _ => false

/-- The attachment an item of an import describes, and its bytes. -/
def importedAttachment (P : Platform) (content item : Value) : Checked (Attachment × List UInt8) :=
  if item.isObject = false then .error "Imported attachment is invalid."
  else do
    let sourceId ← stringValue (item.field "id") "Imported attachment ID" 64
    if validId "attachment" sourceId = false then .error "Imported attachment ID is invalid."
    else do
      let bytes ← bytesFromBase64 (content.get sourceId)
      if importIntact P item bytes = false then .error "Imported attachment failed its integrity check."
      else do
        let filename ← portableFilename (item.field "filename")
        let mediaType ← mediaTypeFrom (item.field "media_type") "Imported attachment media type"
        .ok (⟨sourceId, filename, mediaType, bytes.length, P.sha256 bytes⟩, bytes)

/-- An imported object is stored, and then its key is on the list of uploaded ones. -/
def uploadImported (projectId : JsString) (attachment : Attachment) (bytes : List UInt8) : Method Unit := do
  let key := attachmentKey projectId attachment.id
  request (.put key ⟨bytes, attachment.mediaType, attachment.sha256⟩)
  let uploaded ← Act.get
  Act.put (uploaded ++ [key])

/-- The loop of `importProject`. -/
def importAttachments (P : Platform) (projectId : JsString) (content : Value) : List Value → List Attachment →
    Method (List Attachment)
  | [], attachments => pure attachments
  | item :: rest, attachments => do
    let imported ← checked (importedAttachment P content item)
    uploadImported projectId imported.1 imported.2
    importAttachments P projectId content rest (attachments ++ [imported.1])

/-- The deletions of a failed import, all of which are sent; it throws what the first of them throws,
or what it failed with. -/
def deleteUploaded (error : Problem) : List JsString → Method ProjectDocument
  | [] => Act.raise error
  | key :: rest => do
    let deleted : Bool ← Act.handle (do request (.delete key); pure true) fun _ => pure false
    deleteUploaded (if deleted then error else .storage) rest

/-- The `try` of `importProject`. -/
def storeImport (P : Platform) (owner : JsString) (project : ProjectDocument) (content : Value) (items : List Value) :
    Method ProjectDocument := do
  let attachments ← importAttachments P project.id content items []
  if content.keyCount ≠ attachments.length then
    Act.raise (.error "Project import contains undeclared attachments.")
  else if maxProjectAttachmentBytes < attachmentTotal attachments then
    Act.raise (.error "Imported attachment total exceeds 2 MB.")
  else do
    let imported := { project with attachments }
    insertProject P imported owner
    pure imported

/-- What `importProject` reads of a value: the project, the contents, and the attachments listed. -/
structure ImportSource where
  project : Value
  content : Value
  items : List Value

/-- The checks `importProject` makes on the value before it draws anything. -/
def importSource (P : Platform) (value : Value) : Checked ImportSource :=
  if value.isObject = false then .error "Project import is invalid."
  else match value.field "schema_version" with
    | some (.str schema) =>
      if schema ≠ exportSchema then .error "Project import schema is unsupported."
      else match value.field "project" with
        | none => .error "Project import is missing project data."
        | some project =>
          if project.isObject = false then .error "Project import is missing project data."
          else match value.field "attachment_content" with
            | none => .error "Project import is missing attachment content."
            | some content =>
              if content.isObject = false then .error "Project import is missing attachment content."
              else match value.field "export_sha256" with
                | some (.str supplied) =>
                  if supplied ≠ exportDigest P (.obj (exportPayload (.str schema) project content)) then
                    .error "Project import digest is invalid."
                  else do
                    let items ← listValue (orEmpty (project.field "attachments")) "Imported attachments" 100
                    .ok ⟨project, content, items⟩
                | _ => .error "Project import digest is invalid."
    | _ => .error "Project import schema is unsupported."

/-- `importProject`; what `sanitizedProject` reads of a project leaves out its attachments. -/
def importProject (P : Platform) (call : Nat) (owner : JsString) (value : Value) : Method ProjectDocument := do
  let source ← checked (importSource P value)
  let id : JsString ← request (.newId call "project")
  let d : Draws ← request .draw
  let project ← checked (sanitizedProject P.toRuntime d source.project (.fresh id))
  (storeImport P owner project source.content source.items).handle fun error => do
    let uploaded ← Act.get
    deleteUploaded error uploaded

end LilTweak.Workspace
