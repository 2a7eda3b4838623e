import LilTweak.Lib.Pool
import LilTweak.Workspace.Calls
import Mathlib

/-!
# The workspace as a system

The rows of the projects, the objects of the bucket, and any number of calls at work on them. A
question may fail before it does anything or after; a new identifier is one that nothing has.
-/

namespace LilTweak.Workspace

open LilTweak.Lib

/-- A row of `workspace_projects`, with the records it held before, the latest first. -/
structure Row where
  owner : JsString
  record : ProjectDocument
  older : List ProjectDocument := []
  deriving DecidableEq

/-- The records of a row, the latest first. -/
def Row.history (row : Row) : List ProjectDocument := row.record :: row.older

/-- The tables and the bucket; `drawn` says which call drew an identifier. -/
structure Stores where
  rows : Dict JsString Row := ∅
  objects : Dict JsString StoredFile := ∅
  drawn : Dict JsString Nat := ∅

/-- Where a question fails: before it does anything, or after. -/
inductive Fault
  | before | after
  deriving DecidableEq

/-- What is left open of a step. -/
structure Choice where
  fault : Option Fault := none
  now : JsString := []
  uuid : JsString := List.replicate 32 (Fin.ofNat 0x10000 '0'.toNat)
  items : ItemKind → Nat → JsString := fun _ _ => List.replicate 32 (Fin.ofNat 0x10000 '0'.toNat)
  hex : ∀ kind index, JsString.hexOf 32 (items kind index) = true := by intros; decide

namespace Stores

variable (s : Stores)

/-- Nothing has the identifier yet. -/
def unused (id : JsString) : Bool :=
  (s.drawn.get? id).isNone && (s.rows.get? id).isNone &&
    s.rows.values.all fun row => row.record.attachments.all fun a => decide (a.id ≠ id)

/-- What a question does; `none` where it throws of itself. -/
def serve (c : Choice) : (q : Query) → q.Answer × Stores
  | .draw => (some ⟨c.now, c.items, c.hex⟩, s)
  | .now => (some c.now, s)
  | .newId call kind =>
    let id := newId kind c.uuid
    if JsString.hexOf 32 c.uuid = true ∧ s.unused id = true then (some id, { s with drawn := s.drawn.set id call })
    else (none, s)
  | .select owner projectId =>
    (some ((s.rows.get? projectId).bind fun row => if row.owner = owner then some row.record else none), s)
  | .insert owner project =>
    match s.rows.get? project.id with
    | some _ => (none, s)
    | none =>
      let row : Row := ⟨owner, project, []⟩
      (some (), { s with rows := s.rows.set project.id row })
  | .update owner project expected =>
    match s.rows.get? project.id with
    | some row =>
      if row.owner = owner ∧ row.record = expected then
        let written : Row := ⟨row.owner, project, row.history⟩
        (some true, { s with rows := s.rows.set project.id written })
      else (some false, s)
    | none => (some false, s)
  | .get key => (some (s.objects.get? key), s)
  | .put key file => (some (), { s with objects := s.objects.set key file })
  | .delete key => (some (), { s with objects := s.objects.erase key })

/-- A question as it goes. -/
def perform (c : Choice) (q : Query) : q.Answer × Stores :=
  match c.fault with
  | none => s.serve c q
  | some .before => (none, s)
  | some .after => (none, (s.serve c q).2)

end Stores

/-! ## Calls -/

inductive Request
  | createProject (owner : JsString) (value : Value)
  | updateProject (owner projectId : JsString) (value : Value) (expectedRevision : ℚ)
  | attachFile (owner projectId : JsString) (value : Value) (expectedRevision : ℚ)
  | importProject (owner : JsString) (value : Value)

/-- A request under the number of its call. -/
structure Call where
  number : Nat
  request : Request

/-- The program of a call. -/
def Call.run (P : Platform) (call : Call) : Method ProjectDocument :=
  match call.request with
  | .createProject owner value => createProject P call.number owner value
  | .updateProject owner projectId value expectedRevision => updateProject P owner projectId value expectedRevision
  | .attachFile owner projectId value expectedRevision =>
    attachFile P call.number owner projectId value expectedRevision
  | .importProject owner value => importProject P call.number owner value

/-- A call and what became of it. -/
abbrev Outcome := Call × Except Problem ProjectDocument

/-- The calls at work on the stores. -/
def works (P : Platform) : PoolSpec Query Query.Answer Outcome Stores Call Choice Empty where
  program call := (call.run P []).bind fun r => .done (call, r.1)
  perform := Stores.perform
  outside e := e.elim

abbrev System := Pool Query Query.Answer Outcome Stores

abbrev Event := PoolEvent Call Choice Empty

/-- A call starts under its own number. -/
def Numbered : Event → Prop
  | .start n call => call.number = n
  | _ => True

/-- One step of the system. -/
def System.Step (P : Platform) (w : System) (e : Event) (w' : System) : Prop :=
  Numbered e ∧ Pool.Step (works P) w e w'

end LilTweak.Workspace
