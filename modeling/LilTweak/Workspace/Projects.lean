import LilTweak.Lib.JsValue
import LilTweak.Lib.Outcome
import LilTweak.Worker.Engineering
import Mathlib

/-!
# Workspace projects

The document of a project, the values requests bring, and what `sanitizedProject` makes of a value:
each list is checked against its bound, each item against its own rules, and an item without an
identifier of its kind gets a new one.
-/

namespace LilTweak.Workspace

open LilTweak.Lib
open LilTweak.Worker (Runtime)

/-! ## Checks -/

/-- `n.toLocaleString()`, for the bounds the messages name. -/
def toLocaleString (n : Nat) : String :=
  if n < 1000 then toString n
  else toString (n / 1000) ++ "," ++ String.ofList ((toString (n % 1000 + 1000)).toList.drop 1)

/-- What a call throws: a plain error by its message, the error of an attachment by its filename and
what is said of it, `ProjectConflictError`, `ProjectWriteIndeterminateError`, or what the database or
the bucket throws. -/
inductive WorkspaceError (Project : Type)
  | error (message : String)
  | attachment (filename : JsString) (problem : String)
  | conflict (currentProject : Option Project)
  | indeterminate
  | storage

/-- A check on a value: it returns, or throws a plain error with its message. -/
abbrev Checked (α : Type) := Except String α

/-- `value ?? []`. -/
def orEmpty : Option Value → Value
  | none => .arr []
  | some .null => .arr []
  | some v => v

/-- `stringValue`. -/
def stringValue (value : Option Value) (label : String) (maxLength : Nat) : Checked JsString :=
  match value with
  | some (.str s) =>
    if s.trim = [] then .error s!"{label} is required."
    else if maxLength < s.trim.length then
      .error s!"{label} is longer than {toLocaleString maxLength} characters."
    else .ok s.trim
  | _ => .error s!"{label} must be text."

/-- `optionalString`. -/
def optionalString (value : Option Value) (label : String) (maxLength : Nat) : Checked JsString :=
  match value with
  | none => .ok []
  | some .null => .ok []
  | some (.str s) =>
    if maxLength < s.trim.length then
      .error s!"{label} is longer than {toLocaleString maxLength} characters."
    else .ok s.trim
  | _ => .error s!"{label} must be text."

/-- `valueFrom`, for an enumeration that is written as these texts. -/
def valueFrom {α : Type} (value : Option Value) (allowed : List α) (written : α → String) (fallback : α) : α :=
  match value with
  | some (.str s) => (allowed.find? fun a => decide (s = JsString.ofText (written a))).getD fallback
  | _ => fallback

/-- `listValue`. -/
def listValue (value : Value) (label : String) (maxLength : Nat) : Checked (List Value) :=
  match value with
  | .arr items =>
    if maxLength < items.length then
      .error s!"{label} exceeds the {toLocaleString maxLength} item limit."
    else .ok items
  | _ => .error s!"{label} must be a list."

/-- `portableFilename`. -/
def portableFilename (value : Option Value) : Checked JsString := do
  let filename ← stringValue value "Attachment filename" 255
  if filename = JsString.ofText "." ∨ filename = JsString.ofText ".." ∨ filename.any (fun u => u.is '/') = true ∨
      filename.any (fun u => u.is '\\') = true ∨ filename.any (fun u => decide (u.val < 32 ∨ u.val = 127)) = true then
    .error "Attachment filename must be a portable basename."
  else .ok filename

/-! ## Documents -/

inductive ProjectStatus
  | planned | active | complete | archived
  deriving DecidableEq

inductive RequirementStatus
  | planned | active | complete | blocked
  deriving DecidableEq

inductive BoardColumn
  | backlog | ready | active | review | done
  deriving DecidableEq

def ProjectStatus.written : ProjectStatus → String
  | planned => "planned"
  | active => "active"
  | complete => "complete"
  | archived => "archived"

def RequirementStatus.written : RequirementStatus → String
  | planned => "planned"
  | active => "active"
  | complete => "complete"
  | blocked => "blocked"

def BoardColumn.written : BoardColumn → String
  | backlog => "backlog"
  | ready => "ready"
  | active => "active"
  | review => "review"
  | done => "done"

/-- `PROJECT_STATUSES`. -/
def projectStatuses : List ProjectStatus := [.planned, .active, .complete, .archived]

/-- `REQUIREMENT_STATUSES` and `MILESTONE_STATUSES`. -/
def requirementStatuses : List RequirementStatus := [.planned, .active, .complete, .blocked]

/-- `BOARD_COLUMNS`. -/
def boardColumns : List BoardColumn := [.backlog, .ready, .active, .review, .done]

structure Requirement where
  id : JsString
  text : JsString
  status : RequirementStatus
  deriving DecidableEq

structure Milestone where
  id : JsString
  title : JsString
  targetDate : Option JsString
  status : RequirementStatus
  deriving DecidableEq

structure BoardItem where
  id : JsString
  title : JsString
  detail : JsString
  column : BoardColumn
  deriving DecidableEq

structure ProjectNote where
  id : JsString
  text : JsString
  createdAt : JsString
  deriving DecidableEq

structure Attachment where
  id : JsString
  filename : JsString
  mediaType : JsString
  sizeBytes : Nat
  sha256 : JsString
  deriving DecidableEq

/-- `ProjectDocument`, less the fields that are constants. -/
structure ProjectDocument where
  id : JsString
  revision : Nat
  name : JsString
  description : JsString
  status : ProjectStatus
  requirements : List Requirement
  milestones : List Milestone
  board : List BoardItem
  notes : List ProjectNote
  attachments : List Attachment
  createdAt : JsString
  updatedAt : JsString
  deriving DecidableEq

/-! ## `sanitizedProject` -/

/-- The items that have identifiers of their own. -/
inductive ItemKind
  | requirement | milestone | board | note
  deriving DecidableEq

def ItemKind.idPrefix : ItemKind → String
  | requirement => "requirement"
  | milestone => "milestone"
  | board => "board"
  | note => "note"

/-- `newId`, for what `crypto.randomUUID()` returned without its dashes. -/
def newId (kind : String) (uuid : JsString) : JsString := JsString.ofText (kind ++ ":") ++ uuid

/-- `/^kind:[0-9a-f]{32}$/`. -/
def validId (kind : String) (id : JsString) : Bool :=
  id.startsWith (kind ++ ":") && JsString.hexOf 32 (id.drop (JsString.ofText (kind ++ ":")).length)

/-- What a call takes from the clock and from `crypto.randomUUID()`: the time as an ISO text, and
the digits for the identifier of each item. -/
structure Draws where
  now : JsString
  uuid : ItemKind → Nat → JsString
  hex : ∀ kind index, JsString.hexOf 32 (uuid kind index) = true

/-- The identifier of an item: its own, if it is one of the kind, or a new one. -/
def itemId (d : Draws) (kind : ItemKind) (index : Nat) (item : Value) : JsString :=
  match item.field "id" with
  | some (.str s) => if validId kind.idPrefix s then s else newId kind.idPrefix (d.uuid kind index)
  | _ => newId kind.idPrefix (d.uuid kind index)

/-- `/^\d{4}-\d{2}-\d{2}$/`. -/
def validDate (s : JsString) : Bool :=
  let digit (u : CodeUnit) : Bool := u.between '0' '9'
  match s with
  | [a, b, c, d, e, f, g, h, i, j] =>
    digit a && digit b && digit c && digit d && e.is '-' && digit f && digit g && h.is '-' && digit i && digit j
  | _ => false

def sanitizedRequirement (d : Draws) (index : Nat) (item : Value) : Checked Requirement :=
  if item.isObject = false then .error s!"Requirement {index + 1} is invalid."
  else do
    let text ← stringValue (item.field "text") s!"Requirement {index + 1}" 4000
    let status := valueFrom (item.field "status") requirementStatuses RequirementStatus.written .planned
    .ok ⟨itemId d .requirement index item, text, status⟩

/-- `target_date`, or `null`. -/
def targetDate (index : Nat) (item : Value) : Checked (Option JsString) :=
  match item.field "target_date" with
  | none => .ok none
  | some .null => .ok none
  | some (.str s) => if validDate s then .ok (some s) else .error s!"Milestone {index + 1} has an invalid target date."
  | _ => .error s!"Milestone {index + 1} has an invalid target date."

def sanitizedMilestone (d : Draws) (index : Nat) (item : Value) : Checked Milestone :=
  if item.isObject = false then .error s!"Milestone {index + 1} is invalid."
  else do
    let date ← targetDate index item
    let title ← stringValue (item.field "title") s!"Milestone {index + 1}" 256
    let status := valueFrom (item.field "status") requirementStatuses RequirementStatus.written .planned
    .ok ⟨itemId d .milestone index item, title, date, status⟩

def sanitizedBoardItem (d : Draws) (index : Nat) (item : Value) : Checked BoardItem :=
  if item.isObject = false then .error s!"Task {index + 1} is invalid."
  else do
    let title ← stringValue (item.field "title") s!"Task {index + 1}" 256
    let detail ← optionalString (item.field "detail") s!"Task {index + 1} detail" 4000
    let column := valueFrom (item.field "column") boardColumns BoardColumn.written .backlog
    .ok ⟨itemId d .board index item, title, detail, column⟩

/-- `created_at` of a note: its own time, as an ISO text, or now. -/
def noteCreatedAt (r : Runtime) (d : Draws) (item : Value) : JsString :=
  match item.field "created_at" with
  | some (.str s) =>
    match r.dateParse s with
    | some time => r.toISOString time
    | none => d.now
  | _ => d.now

def sanitizedNote (r : Runtime) (d : Draws) (index : Nat) (item : Value) : Checked ProjectNote :=
  if item.isObject = false then .error s!"Note {index + 1} is invalid."
  else do
    let text ← stringValue (item.field "text") s!"Note {index + 1}" 16000
    .ok ⟨itemId d .note index item, text, noteCreatedAt r d item⟩

/-- `list.map((item, index) => …)`, which throws what the first item throws. -/
def mapItems {α : Type} (f : Nat → Value → Checked α) : Nat → List Value → Checked (List α)
  | _, [] => .ok []
  | index, item :: rest => do
    let a ← f index item
    let more ← mapItems f (index + 1) rest
    .ok (a :: more)

/-- The identifiers of all items. -/
def itemIds (requirements : List Requirement) (milestones : List Milestone) (board : List BoardItem)
    (notes : List ProjectNote) : List JsString :=
  requirements.map Requirement.id ++ milestones.map Milestone.id ++ board.map BoardItem.id ++ notes.map ProjectNote.id

/-- The project a document is made for: one that exists, or a new one with this identifier. -/
inductive Basis
  | existing (project : ProjectDocument)
  | fresh (id : JsString)

def Basis.id : Basis → JsString
  | existing p => p.id
  | fresh id => id

def Basis.revision : Basis → Nat
  | existing p => p.revision
  | fresh _ => 0

def Basis.attachments : Basis → List Attachment
  | existing p => p.attachments
  | fresh _ => []

def Basis.createdAt (now : JsString) : Basis → JsString
  | existing p => p.createdAt
  | fresh _ => now

/-- `sanitizedProject`. -/
def sanitizedProject (r : Runtime) (d : Draws) (value : Value) (basis : Basis) : Checked ProjectDocument :=
  if value.isObject = false then .error "Project data is required."
  else do
    let requirements ← listValue (orEmpty (value.field "requirements")) "Requirements" 500
    let requirements ← mapItems (sanitizedRequirement d) 0 requirements
    let milestones ← listValue (orEmpty (value.field "milestones")) "Milestones" 200
    let milestones ← mapItems (sanitizedMilestone d) 0 milestones
    let board ← listValue (orEmpty (value.field "board")) "Task board" 1000
    let board ← mapItems (sanitizedBoardItem d) 0 board
    let notes ← listValue (orEmpty (value.field "notes")) "Notes" 1000
    let notes ← mapItems (sanitizedNote r d) 0 notes
    if ¬(itemIds requirements milestones board notes).Nodup then
      .error "Project item identifiers must be unique."
    else do
      let name ← stringValue (value.field "name") "Project name" 256
      let description ← optionalString (value.field "description") "Project description" 16000
      let status := valueFrom (value.field "status") projectStatuses ProjectStatus.written .planned
      .ok {
        id := basis.id
        revision := basis.revision
        name, description, status, requirements, milestones, board, notes
        attachments := basis.attachments
        createdAt := basis.createdAt d.now
        updatedAt := d.now }

theorem yields_any {ε α : Type} (x : Except ε α) : Yields (fun _ => True) (fun _ => True) x := by
  cases x with
  | error _ => trivial
  | ok _ => trivial

/-- A document is made for its basis: the identifier, the revision and the attachments are its. -/
theorem sanitizedProject_basis (r : Runtime) (d : Draws) (value : Value) (basis : Basis) :
    Yields (fun p => p.id = basis.id ∧ p.revision = basis.revision ∧ p.attachments = basis.attachments)
      (fun _ => True) (sanitizedProject r d value basis) := by
  apply Yields.ite
  · exact fun _ => trivial
  intro _
  apply Yields.bind (yields_any _)
  intro _ _
  apply Yields.bind (yields_any _)
  intro _ _
  apply Yields.bind (yields_any _)
  intro _ _
  apply Yields.bind (yields_any _)
  intro _ _
  apply Yields.bind (yields_any _)
  intro _ _
  apply Yields.bind (yields_any _)
  intro _ _
  apply Yields.bind (yields_any _)
  intro _ _
  apply Yields.bind (yields_any _)
  intro _ _
  apply Yields.ite
  · exact fun _ => trivial
  intro _
  apply Yields.bind (yields_any _)
  intro _ _
  apply Yields.bind (yields_any _)
  intro _ _
  exact ⟨rfl, rfl, rfl⟩

end LilTweak.Workspace
