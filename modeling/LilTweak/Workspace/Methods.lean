import LilTweak.Workspace.Safety
import Mathlib

/-!
# The calls of the workspace are safe

`updateProject` and `attachFile` return once the row has held what they computed; `attachFile` and
`importProject` delete only what they own. So every call may run beside any others.
-/

namespace LilTweak.Workspace

open LilTweak.Lib
open Sharing (triple_pure triple_raise triple_bind triple_handle triple_ite triple_query triple_get triple_put
  stable_const stable_of_le)

variable {P : Platform} {follows : Prop} {n : Nat}

/-! ## Updates -/

/-- The record was read of this row, which has been added to since. -/
def Loaded (owner projectId : JsString) (record : ProjectDocument) (s : Stores) : Prop :=
  record.id = projectId ∧ ∃ row, s.rows.get? projectId = some row ∧ row.owner = owner ∧ record ∈ row.history ∧
    ∀ a ∈ record.attachments, a ∈ row.record.attachments

theorem loaded_later {owner projectId : JsString} {record : ProjectDocument} (s s' : Stores)
    (h : Loaded owner projectId record s) (hle : s.Later s') : Loaded owner projectId record s' := by
  obtain ⟨hid, row, hrow, howner, hheld, hattachments⟩ := h
  obtain ⟨row', hrow', hlater⟩ := hle _ row hrow
  exact ⟨hid, row', hrow', hlater.owner.trans howner, hlater.history _ hheld,
    fun a ha => hlater.attachments a (hattachments a ha)⟩

theorem stays_loaded {owner projectId : JsString} {record : ProjectDocument} :
    Stays P follows n (Loaded owner projectId record) :=
  stable_of_le fun s s' _ h hle => loaded_later s s' h hle

theorem goes_loaded {owner projectId : JsString} :
    Goes P follows n (fun _ _ => True) (loadProject P owner projectId)
      (fun loaded _ s => loaded.project = readRecord loaded.record ∧ Loaded owner projectId loaded.record s) Thrown := by
  have hload : Goes P follows n (fun _ _ => True) (loadProject P owner projectId)
      (fun loaded _ s => True ∧ loaded.project = readRecord loaded.record ∧ Loaded owner projectId loaded.record s)
      fun _ _ _ => True := by
    apply goes_loadProject (fun _ => stable_const _) (fun _ _ => (stable_const _).and stays_loaded)
    intro _ s row hs _ hrow howner
    exact ⟨rfl, (hs.rows _ row hrow).named, row, hrow, howner, List.mem_cons_self, fun _ ha => ha⟩
  exact Sharing.Triple.weaken hload (fun _ _ _ h => h) (fun _ _ _ _ h => h.2) fun _ _ _ _ _ => trivial

/-- The change a call made is in the history of its row. -/
def Recorded (P : Platform) (request : Request) (owner projectId : JsString) (p : ProjectDocument) (s : Stores) : Prop :=
  ∃ row old, s.rows.get? projectId = some row ∧ row.owner = owner ∧ old ∈ row.history ∧ p ∈ row.history ∧
    Computes P old request p

theorem recorded_later {request : Request} {owner projectId : JsString} {p : ProjectDocument} (s s' : Stores)
    (h : Recorded P request owner projectId p s) (hle : s.Later s') : Recorded P request owner projectId p s' := by
  obtain ⟨row, old, hrow, howner, hold, hp, hcomputes⟩ := h
  obtain ⟨row', hrow', hlater⟩ := hle _ row hrow
  exact ⟨row', old, hrow', hlater.owner.trans howner, hlater.history _ hold, hlater.history _ hp, hcomputes⟩

theorem stays_recorded {request : Request} {owner projectId : JsString} {p : ProjectDocument} :
    Stays P follows n (Recorded P request owner projectId p) :=
  stable_of_le fun s s' _ h hle => recorded_later s s' h hle

/-- What a record was read of and what was written over it are in one history. -/
theorem Loaded.recorded {request : Request} {owner projectId : JsString} {old p : ProjectDocument} {s : Stores}
    (h : Loaded owner projectId old s) (hheld : Held owner p s) (hcomputes : Computes P old request p) :
    Recorded P request owner projectId p s := by
  obtain ⟨hid, row, hrow, howner, hold, _⟩ := h
  obtain ⟨row', hrow', _, hp⟩ := hheld
  rw [hcomputes.grows.1, hid, hrow] at hrow'
  obtain rfl := Option.some.inj hrow'
  exact ⟨row, old, hrow, howner, hold, hp, hcomputes⟩

/-- A write of what keeps the attachments. -/
theorem attempt_update {request : Request} {owner projectId : JsString} {project expected : ProjectDocument}
    (hcomputes : Computes P expected request project) (hattachments : project.attachments = expected.attachments) :
    Attempt P follows n owner project expected (Loaded owner projectId expected) (fun _ => True) (fun _ => False)
      fun _ => False where
  staysF := stays_loaded
  staysN := stable_const _
  staysY := stable_const _
  guard _ _ _ := ⟨⟨request, hcomputes⟩, .inl hattachments⟩
  before _ _ _ := trivial
  after _ _ _ _ _ _ _ := .inl trivial
  unseen _ _ _ _ _ := id
  seen _ _ _ h _ := h.elim

theorem goes_updateProject {owner projectId : JsString} {value : Value} {expectedRevision : ℚ} :
    Goes P follows n (fun _ _ => True) (updateProject P owner projectId value expectedRevision)
      (fun p _ s => Recorded P (.updateProject owner projectId value expectedRevision) owner projectId p s) Thrown := by
  apply triple_bind (goes_checked fun _ => stable_const _).thrown
  intro expected
  apply triple_bind (Sharing.Triple.weaken goes_loaded (fun _ _ _ _ => trivial) (fun _ _ _ _ h => h) fun _ _ _ _ h => h)
  intro loaded
  obtain ⟨project, record⟩ := loaded
  have hloaded : ∀ _ : List JsString, Stays P follows n fun s =>
      project = readRecord record ∧ Loaded owner projectId record s := fun _ => (stable_const _).and stays_loaded
  apply triple_ite
  · exact fun _ => triple_raise hloaded fun _ _ _ _ => trivial
  intro _
  apply triple_bind (goes_read (q := .draw) hloaded (fun _ _ => stable_const True) (fun _ _ => rfl)
    (fun _ => trivial) fun _ _ _ _ _ _ _ => trivial).thrown
  intro d
  have hdrawn : ∀ _ : List JsString, Stays P follows n fun s =>
      (project = readRecord record ∧ Loaded owner projectId record s) ∧ True :=
    fun _ => ((stable_const _).and stays_loaded).and (stable_const _)
  apply triple_bind (goes_checked hdrawn).thrown
  intro sanitized
  by_cases hsanitized : project = readRecord record ∧
      sanitizedProject P.toRuntime d value (.existing project) = .ok sanitized
  · obtain ⟨rfl, hok⟩ := hsanitized
    obtain ⟨new, hnew⟩ : ∃ new : ProjectDocument,
        new = { sanitized with revision := (readRecord record).revision + 1 } := ⟨_, rfl⟩
    have hcomputes : Computes P record (.updateProject owner projectId value expectedRevision) new := by
      rw [hnew]
      exact .update hok
    have hattachments : new.attachments = record.attachments := by
      have hbasis := sanitizedProject_basis P.toRuntime d value (.existing (readRecord record))
      rw [hok] at hbasis
      rw [hnew]
      exact hbasis.2.2
    have hwrite : Goes P follows n (fun _ s => Loaded owner projectId record s ∧ Loaded owner projectId record s)
        (writeProject P new owner record)
        (fun _ _ s => Held owner new s ∧ Loaded owner projectId record s) Thrown := by
      have h : Goes P follows n (fun _ s => Loaded owner projectId record s) (writeProject P new owner record)
          (fun _ _ s => Held owner new s) fun e _ s => Failed (fun _ => True) (fun _ => False) (fun _ => False) e s :=
        goes_writeProject (attempt_update hcomputes hattachments)
      exact Goes.thrown (h.lasting fun s s' _ hl hle => loaded_later s s' hl hle)
    rw [← hnew]
    apply triple_bind (Sharing.Triple.weaken hwrite (fun _ _ _ h => ⟨h.2.1.2, h.2.1.2⟩) (fun _ _ _ _ h => h)
      fun _ _ _ _ h => h)
    intro _
    apply triple_pure (fun _ => stays_held.and stays_loaded)
    exact fun _ _ _ h => h.2.recorded h.1 hcomputes
  · exact Sharing.triple_never fun _ _ _ h => hsanitized ⟨h.2.1.1, h.1⟩

/-! ## Attachments -/

/-- No record of the project lists the identifier the call drew. -/
def Unlisted (n : Nat) (projectId x : JsString) (s : Stores) : Prop :=
  s.drawn.get? x = some n ∧ ∃ row, s.rows.get? projectId = some row ∧ ¬row.Lists x

theorem stays_unlisted {projectId x : JsString} : Stays P follows n (Unlisted n projectId x) := by
  intro s s' _ ⟨hdrawn, row, hrow, hlists⟩ _ hframe
  obtain ⟨row', hrow', hless⟩ := hframe.lists x hdrawn projectId row hrow
  exact ⟨hframe.drawn x hdrawn, row', hrow', fun h => hlists (hless h)⟩

/-- The object of an attachment no record lists yet is stored. -/
def Uploaded (P : Platform) (follows : Prop) (n : Nat) (projectId : JsString) (a : Attachment) (s : Stores) : Prop :=
  Unlisted n projectId a.id s ∧ (follows → s.Filed P projectId a)

theorem stays_uploaded {projectId : JsString} {a : Attachment} :
    Stays P follows n (Uploaded P follows n projectId a) := by
  intro s s' hs ⟨hunlisted, hfiled⟩ hle hframe
  refine ⟨stays_unlisted s s' hs hunlisted hle hframe, fun hf => ?_⟩
  obtain ⟨hdrawn, row, hrow, _⟩ := hunlisted
  obtain ⟨file, hfile, hholds⟩ := hfiled hf
  exact ⟨file, (hframe.objects hf a.id hdrawn projectId row hrow).trans hfile, hholds⟩

/-- The write of an attachment has been made. -/
def Attached (owner projectId : JsString) (updated : ProjectDocument) (a : Attachment) (s : Stores) : Prop :=
  ∃ row, s.rows.get? projectId = some row ∧ row.owner = owner ∧ updated ∈ row.history ∧ a ∈ row.record.attachments

theorem stays_attached {owner projectId : JsString} {updated : ProjectDocument} {a : Attachment} :
    Stays P follows n (Attached owner projectId updated a) := by
  apply stable_of_le
  intro s s' _ ⟨row, hrow, howner, hheld, ha⟩ hle
  obtain ⟨row', hrow', hlater⟩ := hle _ row hrow
  exact ⟨row', hrow', hlater.owner.trans howner, hlater.history _ hheld, hlater.attachments a ha⟩

section
variable {owner projectId now : JsString} {r : Request} {expected : ProjectDocument} {a : Attachment}

/-- A write of one more attachment, which the record it expects does not list. -/
theorem attempt_attach (hid : expected.id = projectId)
    (hcomputes : Computes P expected r (attached (readRecord expected) a now))
    (hfresh : ∀ b ∈ expected.attachments, b.id ≠ a.id) :
    Attempt P follows n owner (attached (readRecord expected) a now) expected (Uploaded P follows n projectId a)
      (Unlisted n projectId a.id) (Attached owner projectId (attached (readRecord expected) a now) a)
      fun l => a ∈ l where
  staysF := stays_uploaded
  staysN := stays_unlisted
  staysY := stays_attached
  guard s _ h := by
    refine ⟨⟨r, hcomputes⟩, .inr ⟨a, rfl, h.1.1, fun hf => ?_⟩⟩
    show s.Filed P expected.id a
    rw [hid]
    exact h.2 hf
  before _ _ h := h.1
  after s row _ _ hrow howner _ := by
    have hat : (s.rows.set (attached (readRecord expected) a now).id
        ⟨row.owner, attached (readRecord expected) a now, row.history⟩).get? projectId =
        some ⟨row.owner, attached (readRecord expected) a now, row.history⟩ := by
      rw [← hid]
      exact Dict.get?_set_self _ _ _
    refine .inr ⟨_, hat, howner, List.mem_cons_self, ?_⟩
    exact List.mem_append_right _ (List.mem_singleton_self a)
  unseen s row _ h hrow ha := by
    obtain ⟨_, row', hrow', hlists⟩ := h
    have hsame : s.rows.get? projectId = some row := hid ▸ hrow
    obtain rfl := Option.some.inj (hrow'.symm.trans hsame)
    exact hlists ⟨a, ha, rfl⟩
  seen s row _ h hrow := by
    obtain ⟨row', hrow', _, _, ha⟩ := h
    have hsame : s.rows.get? projectId = some row := hid ▸ hrow
    obtain rfl := Option.some.inj (hrow'.symm.trans hsame)
    refine ⟨ha, fun he => ?_⟩
    exact hfresh a (he ▸ ha) rfl

/-- An object of an unlisted attachment is deleted, and the error is thrown on. -/
theorem goes_cleanUp {error : Problem} {ok : ProjectDocument → Fact} {x : JsString} :
    Goes P follows n (fun _ s => Unlisted n projectId x s) (do
      Act.handle (request (.delete (attachmentKey projectId x))) fun _ => pure ()
      Act.raise error) ok Thrown := by
  have hdelete : Goes P follows n (fun _ s => Unlisted n projectId x s)
      (request (.delete (attachmentKey projectId x))) (fun _ _ _ => True) fun e _ _ => e = .storage ∧ True := by
    apply goes_request (fun _ => stays_unlisted) (fun _ _ => stable_const _) (fun _ => stable_const _)
    · intro _ s _ ⟨hdrawn, row, hrow, hlists⟩ _
      exact .inl ⟨projectId, x, row, rfl, hrow, hdrawn, hlists⟩
    · exact fun _ _ _ _ _ _ _ _ _ _ => trivial
    · exact fun _ _ _ _ => trivial
    · exact fun _ _ _ _ _ _ _ _ => trivial
  have hignore : ∀ e : Problem, Goes P follows n (fun _ _ => e = .storage ∧ True) (pure ()) (fun _ _ _ => True)
      Thrown := fun e => triple_pure (fun _ => stable_const _) fun _ _ _ _ => trivial
  apply triple_bind (triple_handle hdelete hignore)
  exact fun _ => triple_raise (fun _ => stable_const _) fun _ _ _ _ => trivial

/-- Where a write of an attachment failed, it is found to have been made, or its object is deleted. -/
theorem goes_attachFailed {updated : ProjectDocument} {error : Problem} (hcomputes : Computes P expected r updated) :
    Goes P follows n (fun _ s => Failed (Unlisted n projectId a.id) (Attached owner projectId updated a) (fun l => a ∈ l)
        error s ∧ Loaded owner projectId expected s) (attachFailed (attachmentKey projectId a.id) a error)
      (fun _ _ s => Recorded P r owner projectId updated s) Thrown := by
  have hclean : ∀ {F : Fact}, (∀ l s, s.Sound P follows → F l s → Unlisted n projectId a.id s) →
      Goes P follows n F (do
        Act.handle (request (.delete (attachmentKey projectId a.id))) fun _ => pure ()
        Act.raise error) (fun _ _ s => Recorded P r owner projectId updated s) Thrown := fun h =>
    Sharing.Triple.weaken goes_cleanUp h (fun _ _ _ _ h => h) fun _ _ _ _ h => h
  cases error with
  | indeterminate =>
    apply triple_raise (fun _ => (stable_const _).and stays_loaded)
    exact fun _ _ _ _ => trivial
  | conflict current =>
    cases current with
    | none => exact hclean fun _ _ _ h => h.1
    | some current =>
      apply triple_ite
      · intro hhas
        have hmem : a ∈ current.attachments := by
          obtain ⟨b, hb, hba⟩ := List.any_eq_true.mp hhas
          exact of_decide_eq_true hba ▸ hb
        apply triple_pure
        · exact fun _ => ((stays_unlisted.and (stable_const _)).or (stays_attached.and (stable_const _))).and stays_loaded
        · intro _ s _ ⟨hcase, hid, row, hrow, howner, hold, _⟩
          rcases hcase with ⟨_, hnot⟩ | ⟨⟨row', hrow', _, hheld, _⟩, _⟩
          · exact absurd hmem hnot
          · obtain rfl := Option.some.inj (hrow.symm.trans hrow')
            exact ⟨row, expected, hrow, howner, hold, hheld, hcomputes⟩
      · intro hhas
        have hmem : a ∉ current.attachments := by
          intro ha
          exact hhas (List.any_eq_true.mpr ⟨a, ha, decide_eq_true rfl⟩)
        exact hclean fun _ _ _ h => h.1.elim (fun hn => hn.1) fun hy => absurd hy.2 hmem
  | _ => exact hclean fun _ _ _ h => h.1

/-- The object of an unlisted attachment is put. -/
theorem goes_put {file : StoredFile} (hholds : file.Holds P a) :
    Goes P follows n (fun _ s => Unlisted n projectId a.id s) (request (.put (attachmentKey projectId a.id) file))
      (fun _ _ s => Uploaded P follows n projectId a s) fun e _ s => e = .storage ∧ Unlisted n projectId a.id s := by
  apply goes_request (fun _ => stays_unlisted) (fun _ _ => stays_uploaded) (fun _ => stays_unlisted)
  · intro _ s _ ⟨hdrawn, row, hrow, hlists⟩ _
    exact .inl ⟨projectId, a.id, row, rfl, hrow, hdrawn, hlists⟩
  · intro _ s c reply s' _ hunlisted hserve _ _
    obtain ⟨_, rfl⟩ := Prod.mk.inj hserve
    exact ⟨hunlisted, fun _ => ⟨file, Dict.get?_set_self _ _ _, hholds⟩⟩
  · exact fun _ _ _ h => h
  · exact fun _ _ _ _ h _ _ _ => h

/-- A new identifier is listed nowhere. -/
theorem goes_newAttachmentId {record : ProjectDocument} :
    Goes P follows n (fun _ s => Loaded owner projectId record s) (request (.newId n "attachment"))
      (fun (x : JsString) _ s => (∀ b ∈ record.attachments, b.id ≠ x) ∧ Unlisted n projectId x s) Thrown := by
  have hrequest : Goes P follows n (fun _ s => Loaded owner projectId record s) (request (.newId n "attachment"))
      (fun (x : JsString) _ s => (∀ b ∈ record.attachments, b.id ≠ x) ∧ Unlisted n projectId x s)
      fun e _ s => e = .storage ∧ True := by
    apply goes_request (fun _ => stays_loaded) (fun _ _ => (stable_const _).and stays_unlisted)
      (fun _ => stable_const _)
    · exact fun _ _ _ _ => ⟨rfl, by decide⟩
    · intro _ s c x s' _ hloaded hserve _ _
      obtain ⟨_, row, hrow, _, _, hattachments⟩ := hloaded
      simp only [Stores.serve] at hserve
      split at hserve
      · next hnew =>
        obtain ⟨hx, rfl⟩ := Prod.mk.inj hserve
        obtain rfl := Option.some.inj hx
        have hunused := hnew.2
        unfold Stores.unused at hunused
        have hnone := List.all_eq_true.mp (Bool.and_eq_true_iff.mp hunused).2 row
          ((Dict.mem_values_iff _ _).mpr ⟨_, hrow⟩)
        have hfree : ∀ b ∈ row.record.attachments, b.id ≠ newId "attachment" c.uuid := fun b hb =>
          of_decide_eq_true (List.all_eq_true.mp hnone b hb)
        refine ⟨fun b hb => hfree b (hattachments b hb), Dict.get?_set_self _ _ _, row, hrow, ?_⟩
        intro hlisted
        obtain ⟨b, hb, hbx⟩ := hlisted
        exact hfree b hb hbx
      · cases (Prod.mk.inj hserve).1
    · exact fun _ _ _ _ => trivial
    · exact fun _ _ _ _ _ _ _ _ => trivial
  exact hrequest.thrown

end

theorem goes_attachFile {owner projectId : JsString} {value : Value} {expectedRevision : ℚ} :
    Goes P follows n (fun _ _ => True) (attachFile P n owner projectId value expectedRevision)
      (fun _ _ s => ∃ updated, Recorded P (.attachFile owner projectId value expectedRevision) owner projectId updated s)
      Thrown := by
  apply triple_bind (goes_checked fun _ => stable_const _).thrown
  intro expected
  apply triple_bind (Sharing.Triple.weaken goes_loaded (fun _ _ _ _ => trivial) (fun _ _ _ _ h => h) fun _ _ _ _ h => h)
  intro loaded
  obtain ⟨project, record⟩ := loaded
  have hloaded : ∀ _ : List JsString, Stays P follows n fun s =>
      project = readRecord record ∧ Loaded owner projectId record s := fun _ => (stable_const _).and stays_loaded
  apply triple_ite
  · exact fun _ => triple_raise hloaded fun _ _ _ _ => trivial
  intro _
  apply triple_ite
  · exact fun _ => triple_raise hloaded fun _ _ _ _ => trivial
  intro _
  apply triple_bind (goes_checked hloaded).thrown
  intro bytes
  by_cases hbytes : (bytesFromBase64 (value.field "content_base64") = .ok bytes ∧ project = readRecord record) ∧
      record.id = projectId
  case neg => exact Sharing.triple_never fun _ _ _ h => hbytes ⟨⟨h.1, h.2.1⟩, h.2.2.1⟩
  obtain ⟨⟨hcontent, rfl⟩, rfl⟩ := hbytes
  have hbefore : ∀ _ : List JsString, Stays P follows n fun s =>
      bytesFromBase64 (value.field "content_base64") = .ok bytes ∧
        readRecord record = readRecord record ∧ Loaded owner record.id record s :=
    fun l => (stable_const _).and (hloaded l)
  apply triple_ite
  · exact fun _ => triple_raise hbefore fun _ _ _ _ => trivial
  intro _
  have hdrawn : Goes P follows n (fun _ s => Loaded owner record.id record s ∧ Loaded owner record.id record s)
      (request (.newId n "attachment")) (fun (x : JsString) _ s =>
        ((∀ b ∈ record.attachments, b.id ≠ x) ∧ Unlisted n record.id x s) ∧ Loaded owner record.id record s) Thrown :=
    Goes.thrown (goes_newAttachmentId.lasting fun s s' _ hl hle => loaded_later s s' hl hle)
  apply triple_bind (Sharing.Triple.weaken hdrawn (fun _ _ _ h => ⟨h.2.2, h.2.2⟩) (fun _ _ _ _ h => h)
    fun _ _ _ _ h => h)
  intro x
  have hfree : ∀ _ : List JsString, Stays P follows n fun s =>
      ((∀ b ∈ record.attachments, b.id ≠ x) ∧ Unlisted n record.id x s) ∧ Loaded owner record.id record s :=
    fun _ => ((stable_const _).and stays_unlisted).and stays_loaded
  apply triple_bind (goes_checked hfree).thrown
  intro a
  by_cases ha : newAttachment P value bytes x = .ok a ∧ ∀ b ∈ record.attachments, b.id ≠ x
  case neg => exact Sharing.triple_never fun _ _ _ h => ha ⟨h.1, h.2.1.1⟩
  obtain ⟨hnew, hfresh⟩ := ha
  obtain ⟨hax, hholds⟩ : a.id = x ∧ StoredFile.Holds P a ⟨bytes, a.mediaType, a.sha256⟩ := by
    unfold newAttachment at hnew
    cases hfilename : portableFilename (value.field "filename") with
    | error message => simp [hfilename, bind, Except.bind] at hnew
    | ok filename =>
      cases hmedia : mediaTypeFrom (value.field "media_type") "Attachment media type" with
      | error message => simp [hfilename, hmedia, bind, Except.bind] at hnew
      | ok mediaType =>
        simp only [hfilename, hmedia, bind, Except.bind, Except.ok.injEq] at hnew
        rw [← hnew]
        exact ⟨rfl, rfl, rfl⟩
  subst hax
  have hmade : ∀ _ : List JsString, Stays P follows n fun s => newAttachment P value bytes a.id = .ok a ∧
      ((∀ b ∈ record.attachments, b.id ≠ a.id) ∧ Unlisted n record.id a.id s) ∧ Loaded owner record.id record s :=
    fun l => (stable_const _).and (hfree l)
  apply triple_bind (goes_read (q := .now) hmade (fun _ _ => stable_const True) (fun _ _ => rfl) (fun _ => trivial)
    fun _ _ _ _ _ _ _ => trivial).thrown
  intro now
  have hcomputes : Computes P record (.attachFile owner record.id value expectedRevision)
      (attached (readRecord record) a now) := .attach hcontent hnew
  have hstore : Goes P follows n (fun _ s => Unlisted n record.id a.id s) (do
      request (.put (attachmentKey record.id a.id) ⟨bytes, a.mediaType, a.sha256⟩)
      writeProject P (attached (readRecord record) a now) owner record
      pure (attached (readRecord record) a now)) (fun _ _ s => Held owner (attached (readRecord record) a now) s)
      fun e _ s => Failed (Unlisted n record.id a.id)
        (Attached owner record.id (attached (readRecord record) a now) a) (fun l => a ∈ l) e s := by
    apply triple_bind (Sharing.Triple.weaken (goes_put hholds) (fun _ _ _ h => h) (fun _ _ _ _ h => h) ?_)
    · intro _
      apply triple_bind (goes_writeProject (attempt_attach rfl hcomputes hfresh))
      exact fun _ => triple_pure (fun _ => stays_held) fun _ _ _ h => h
    · intro e _ s _ ⟨he, hunlisted⟩
      rw [he]
      exact hunlisted
  have hkept := hstore.lasting fun s s' _ (hl : Loaded owner record.id record s) hle => loaded_later s s' hl hle
  have hall : Goes P follows n (fun _ s => Unlisted n record.id a.id s ∧ Loaded owner record.id record s)
      (Act.handle (do
        request (.put (attachmentKey record.id a.id) ⟨bytes, a.mediaType, a.sha256⟩)
        writeProject P (attached (readRecord record) a now) owner record
        pure (attached (readRecord record) a now)) (attachFailed (attachmentKey record.id a.id) a))
      (fun _ _ s => Recorded P (.attachFile owner record.id value expectedRevision) owner record.id
        (attached (readRecord record) a now) s) Thrown := by
    apply triple_handle (Sharing.Triple.weaken hkept (fun _ _ _ h => h)
      (fun _ _ _ _ h => h.2.recorded h.1 hcomputes) fun _ _ _ _ h => h)
    exact fun e => goes_attachFailed hcomputes
  exact Sharing.Triple.weaken hall (fun _ _ _ h => ⟨h.1.2.1.2, h.1.2.2⟩) (fun _ _ _ _ h => ⟨_, h⟩) fun _ _ _ _ h => h

/-! ## New projects -/

/-- The call drew the identifier, and no project has it. -/
def Mine (n : Nat) (projectId : JsString) (s : Stores) : Prop :=
  s.drawn.get? projectId = some n ∧ s.rows.get? projectId = none

theorem stays_mine {projectId : JsString} : Stays P follows n (Mine n projectId) :=
  fun _ _ _ ⟨hdrawn, hfree⟩ _ hframe => ⟨hframe.drawn _ hdrawn, hframe.free _ hdrawn hfree⟩

theorem goes_newProjectId :
    Goes P follows n (fun l _ => l = []) (request (.newId n "project"))
      (fun (x : JsString) l s => l = [] ∧ slash ∉ x ∧ Mine n x s) Thrown := by
  have hrequest : Goes P follows n (fun l _ => l = []) (request (.newId n "project"))
      (fun (x : JsString) l s => l = [] ∧ slash ∉ x ∧ Mine n x s) fun e _ _ => e = .storage ∧ True := by
    apply goes_request (fun _ => stable_const _)
      (fun _ _ => (stable_const _).and ((stable_const _).and stays_mine)) (fun _ => stable_const _)
    · exact fun _ _ _ _ => ⟨rfl, by decide⟩
    · intro l s c x s' _ hl hserve _ _
      simp only [Stores.serve] at hserve
      split at hserve
      · next hnew =>
        obtain ⟨hx, rfl⟩ := Prod.mk.inj hserve
        obtain rfl := Option.some.inj hx
        have hunused := hnew.2
        unfold Stores.unused at hunused
        simp only [Bool.and_eq_true, Option.isNone_iff_eq_none] at hunused
        exact ⟨hl, newId_no_slash (by decide) hnew.1, Dict.get?_set_self _ _ _, hunused.1.2⟩
      · cases (Prod.mk.inj hserve).1
    · exact fun _ _ _ _ => trivial
    · exact fun _ _ _ _ _ _ _ _ => trivial
  exact hrequest.thrown

/-- The attachment is one of the contents, and its object is stored. -/
def Imported (P : Platform) (follows : Prop) (projectId : JsString) (content : Value) (a : Attachment) (s : Stores) :
    Prop :=
  slash ∉ a.id ∧ (follows → ∃ file, s.objects.get? (attachmentKey projectId a.id) = some file ∧
    bytesFromBase64 (content.get a.id) = .ok file.bytes ∧ file.Holds P a)

/-- What an import has made so far: the keys it has uploaded are those of its attachments. -/
def Importing (P : Platform) (follows : Prop) (n : Nat) (projectId : JsString) (content : Value)
    (attachments : List Attachment) : Fact := fun l s =>
  l = attachments.map (fun a => attachmentKey projectId a.id) ∧ Mine n projectId s ∧
    ∀ a ∈ attachments, Imported P follows projectId content a s

section
variable {owner projectId : JsString} {content : Value} {attachments : List Attachment}

theorem stays_importing {l : List JsString} :
    Stays P follows n (Importing P follows n projectId content attachments l) := by
  intro s s' hs ⟨hl, hmine, himported⟩ hle hframe
  refine ⟨hl, stays_mine s s' hs hmine hle hframe, fun a ha => ?_⟩
  obtain ⟨hslash, hfile⟩ := himported a ha
  refine ⟨hslash, fun hf => ?_⟩
  obtain ⟨file, hat, hholds⟩ := hfile hf
  exact ⟨file, (hframe.freeObjects hf projectId hmine.1 hmine.2 a.id hslash).trans hat, hholds⟩

/-- What is left where an import failed: it may delete what it has uploaded. -/
def Deletable (follows : Prop) (n : Nat) (projectId : JsString) (l : List JsString) (s : Stores) : Prop :=
  (∀ key ∈ l, ∃ aid, slash ∉ aid ∧ key = attachmentKey projectId aid) ∧ (follows → l = [] ∨ Mine n projectId s)

theorem stays_deletable {l : List JsString} : Stays P follows n (Deletable follows n projectId l) :=
  (stable_const _).and (Sharing.Stable.imp fun _ => (stable_const _).or stays_mine)

theorem Importing.deletable {l : List JsString} {s : Stores}
    (h : Importing P follows n projectId content attachments l s) : Deletable follows n projectId l s := by
  obtain ⟨rfl, hmine, himported⟩ := h
  refine ⟨?_, fun _ => .inr hmine⟩
  intro key hkey
  obtain ⟨a, ha, rfl⟩ := List.mem_map.mp hkey
  exact ⟨a.id, (himported a ha).1, rfl⟩

theorem goes_deleteUploaded {error : Problem} {ok : ProjectDocument → Fact} {l : List JsString} {keys : List JsString} :
    Goes P follows n (fun _ s => (∃ kept, l = kept ++ keys) ∧ Deletable follows n projectId l s)
      (deleteUploaded error keys) ok Thrown := by
  induction keys generalizing error with
  | nil => exact triple_raise (fun _ => (stable_const _).and stays_deletable) fun _ _ _ _ => trivial
  | cons key rest ih =>
    have hstays : ∀ _ : List JsString, Stays P follows n fun s =>
        (∃ kept, l = kept ++ key :: rest) ∧ Deletable follows n projectId l s :=
      fun _ => (stable_const _).and stays_deletable
    have hdelete : Goes P follows n (fun _ s => (∃ kept, l = kept ++ key :: rest) ∧ Deletable follows n projectId l s)
        (request (.delete key))
        (fun _ _ s => (∃ kept, l = kept ++ key :: rest) ∧ Deletable follows n projectId l s)
        fun e _ s => e = .storage ∧ (∃ kept, l = kept ++ key :: rest) ∧ Deletable follows n projectId l s := by
      apply goes_request hstays (fun _ => hstays) hstays
      · intro _ s _ ⟨⟨kept, hl⟩, hkeys, hmine⟩ hf
        have hmem : key ∈ l := hl ▸ List.mem_append_right _ List.mem_cons_self
        obtain ⟨aid, haid, rfl⟩ := hkeys key hmem
        obtain hnil | ⟨hdrawn, hfree⟩ := hmine hf
        · rw [hnil] at hmem
          cases hmem
        · exact .inr ⟨projectId, aid, rfl, haid, hdrawn, hfree⟩
      · intro _ s c reply s' _ h hserve _ _
        obtain ⟨_, rfl⟩ := Prod.mk.inj hserve
        exact h
      · exact fun _ _ _ h => h
      · exact fun _ _ _ _ h _ _ _ => h
    have htry : Goes P follows n (fun _ s => (∃ kept, l = kept ++ key :: rest) ∧ Deletable follows n projectId l s)
        (do request (.delete key); pure true)
        (fun (_ : Bool) _ s => (∃ kept, l = kept ++ key :: rest) ∧ Deletable follows n projectId l s)
        fun e _ s => e = .storage ∧ (∃ kept, l = kept ++ key :: rest) ∧ Deletable follows n projectId l s := by
      apply triple_bind hdelete
      exact fun _ => triple_pure hstays fun _ _ _ h => h
    have hcatch : ∀ e : Problem, Goes P follows n
        (fun _ s => e = .storage ∧ (∃ kept, l = kept ++ key :: rest) ∧ Deletable follows n projectId l s)
        (pure false)
        (fun (_ : Bool) _ s => (∃ kept, l = kept ++ key :: rest) ∧ Deletable follows n projectId l s) Thrown :=
      fun e => triple_pure (fun l => (stable_const _).and (hstays l)) fun _ _ _ h => h.2
    apply triple_bind (triple_handle htry hcatch)
    intro deleted
    apply Sharing.Triple.weaken ih
    · intro _ s _ ⟨⟨kept, hl⟩, hdeletable⟩
      exact ⟨⟨kept ++ [key], by rw [hl, List.append_assoc, List.singleton_append]⟩, hdeletable⟩
    · exact fun _ _ _ _ h => h
    · exact fun _ _ _ _ h => h

/-- A project is inserted under the identifier the call drew; where that throws, it has not been, or it
has no attachments. -/
theorem goes_insertProject {project : ProjectDocument} (hid : project.id = projectId)
    (hattachments : project.attachments = attachments) :
    Goes P follows n (Importing P follows n projectId content attachments) (insertProject P project owner)
      (fun _ _ _ => True) fun _ l s => Deletable follows n projectId l s := by
  have hrecord : Goes P follows n (Importing P follows n projectId content attachments)
      (checked (projectRecord P project))
      (fun record l s => record = project ∧ Importing P follows n projectId content attachments l s)
      fun _ l s => Deletable follows n projectId l s := by
    apply Sharing.Triple.weaken (goes_checked fun _ => stays_importing) (fun _ _ _ h => h)
    · intro record _ _ _ ⟨hok, h⟩
      unfold projectRecord at hok
      split at hok
      · cases hok
      · exact ⟨(Except.ok.inj hok).symm, h⟩
    · exact fun _ _ _ _ h => h.2.deletable
  apply triple_bind hrecord
  intro record
  by_cases hsame : record = project
  case neg => exact Sharing.triple_never fun _ _ _ h => hsame h.1
  subst hsame
  have hinsert : Goes P follows n (Importing P follows n projectId content attachments)
      (request (.insert owner record)) (fun _ _ _ => True)
      fun e l s => e = .storage ∧ Deletable follows n projectId l s := by
    apply goes_request (fun _ => stays_importing) (fun _ _ => stable_const _) (fun _ => stays_deletable)
    · intro l s _ ⟨_, hmine, himported⟩
      refine ⟨hid ▸ hmine.1, fun a ha => ?_⟩
      obtain ⟨hslash, hfile⟩ := himported a (hattachments ▸ ha)
      refine ⟨hslash, fun hf => ?_⟩
      obtain ⟨file, hat, _, hholds⟩ := hfile hf
      exact ⟨file, hid ▸ hat, hholds⟩
    · exact fun _ _ _ _ _ _ _ _ _ _ => trivial
    · exact fun _ _ _ h => h.deletable
    · intro l s c _ h hlose _ _
      obtain ⟨hkeys, _⟩ := h.deletable
      refine ⟨hkeys, fun hf => .inl ?_⟩
      rw [h.1, ← hattachments, hlose hf owner record rfl]
      rfl
  exact Sharing.Triple.weaken hinsert (fun _ _ _ h => h.2) (fun _ _ _ _ h => h) fun _ _ _ _ h => h.2

/-- What the checks on an imported attachment leave. -/
theorem importedAttachment_ok {item : Value} {a : Attachment} {bytes : List UInt8}
    (h : importedAttachment P content item = .ok (a, bytes)) :
    slash ∉ a.id ∧ bytesFromBase64 (content.get a.id) = .ok bytes ∧ a.sizeBytes = bytes.length ∧
      a.sha256 = P.sha256 bytes := by
  have hyields : Yields (fun r : Attachment × List UInt8 => slash ∉ r.1.id ∧
      bytesFromBase64 (content.get r.1.id) = .ok r.2 ∧ r.1.sizeBytes = r.2.length ∧ r.1.sha256 = P.sha256 r.2)
      (fun _ => True) (importedAttachment P content item) := by
    apply Yields.ite
    · exact fun _ => trivial
    intro _
    apply Yields.bind (yields_any _)
    intro sourceId _
    apply Yields.ite
    · exact fun _ => trivial
    intro hvalid
    rw [Bool.not_eq_false] at hvalid
    cases hbytes : bytesFromBase64 (content.get sourceId) with
    | error message => trivial
    | ok bytes =>
      apply Yields.ite
      · exact fun _ => trivial
      intro _
      apply Yields.bind (yields_any _)
      intro filename _
      apply Yields.bind (yields_any _)
      intro mediaType _
      exact ⟨validId_no_slash (by decide) hvalid, hbytes, rfl, rfl⟩
  rw [h] at hyields
  exact hyields

/-- An object of an import is put, and its key is noted. -/
theorem goes_uploadImported {a : Attachment} {bytes : List UInt8} (hslash : slash ∉ a.id)
    (hbytes : bytesFromBase64 (content.get a.id) = .ok bytes) (hsize : a.sizeBytes = bytes.length)
    (hsha : a.sha256 = P.sha256 bytes) :
    Goes P follows n (Importing P follows n projectId content attachments) (uploadImported projectId a bytes)
      (fun _ => Importing P follows n projectId content (attachments ++ [a]))
      fun _ l s => Deletable follows n projectId l s := by
  have hdone : ∀ l, Stays P follows n fun s =>
      Importing P follows n projectId content attachments l s ∧ Imported P follows projectId content a s := by
    intro l s s' hs ⟨h, ha⟩ hle hframe
    refine ⟨stays_importing s s' hs h hle hframe, ha.1, fun hf => ?_⟩
    obtain ⟨file, hat, hholds⟩ := ha.2 hf
    exact ⟨file, (hframe.freeObjects hf projectId h.2.1.1 h.2.1.2 a.id hslash).trans hat, hholds⟩
  have hput : Goes P follows n (Importing P follows n projectId content attachments)
      (request (.put (attachmentKey projectId a.id) ⟨bytes, a.mediaType, a.sha256⟩))
      (fun _ l s => Importing P follows n projectId content attachments l s ∧ Imported P follows projectId content a s)
      fun e l s => e = .storage ∧ Deletable follows n projectId l s := by
    apply goes_request (fun _ => stays_importing) (fun _ l => hdone l) (fun _ => stays_deletable)
    · exact fun _ _ _ h _ => .inr ⟨projectId, a.id, rfl, hslash, h.2.1.1, h.2.1.2⟩
    · intro l s c reply s' _ ⟨hl, hmine, himported⟩ hserve _ _
      obtain ⟨_, rfl⟩ := Prod.mk.inj hserve
      refine ⟨⟨hl, hmine, fun b hb => ⟨(himported b hb).1, fun hf => ?_⟩⟩, hslash, fun _ => ?_⟩
      · -- an attachment listed again has the same bytes
        by_cases hsame : attachmentKey projectId b.id = attachmentKey projectId a.id
        · obtain ⟨file, _, hread, hholds⟩ := (himported b hb).2 hf
          have hid : b.id = a.id := List.append_cancel_left hsame
          have hfile : file.bytes = bytes := by
            rw [hid, hbytes] at hread
            exact (Except.ok.inj hread).symm
          refine ⟨⟨bytes, a.mediaType, a.sha256⟩, ?_, ?_, ?_⟩
          · rw [hsame]
            exact Dict.get?_set_self _ _ _
          · rw [hid]
            exact hbytes
          · exact hfile ▸ hholds
        · obtain ⟨file, hat, hread, hholds⟩ := (himported b hb).2 hf
          exact ⟨file, (Dict.get?_set_ne _ _ hsame).trans hat, hread, hholds⟩
      · exact ⟨⟨bytes, a.mediaType, a.sha256⟩, Dict.get?_set_self _ _ _, hbytes, hsize.symm, hsha.symm⟩
    · exact fun _ _ _ h => h.deletable
    · exact fun _ _ _ _ h _ _ _ => h.deletable
  apply triple_bind (Sharing.Triple.weaken hput (fun _ _ _ h => h) (fun _ _ _ _ h => h) fun _ _ _ _ h => h.2)
  intro _
  apply triple_bind (triple_get hdone)
  intro uploaded
  apply triple_put (fun l => (stable_const _).and (hdone l))
  intro l s _ ⟨huploaded, ⟨hl, hmine, himported⟩, ha⟩
  refine ⟨?_, hmine, ?_⟩
  · rw [huploaded, hl, List.map_append, List.map_singleton]
  · intro b hb
    rcases List.mem_append.mp hb with hb | hb
    · exact himported b hb
    · rw [List.mem_singleton.mp hb]
      exact ha

theorem goes_importAttachments {items : List Value} :
    Goes P follows n (Importing P follows n projectId content attachments)
      (importAttachments P projectId content items attachments)
      (fun all => Importing P follows n projectId content all) fun _ l s => Deletable follows n projectId l s := by
  induction items generalizing attachments with
  | nil => exact triple_pure (fun _ => stays_importing) fun _ _ _ h => h
  | cons item rest ih =>
    have hchecked : Goes P follows n (Importing P follows n projectId content attachments)
        (checked (importedAttachment P content item))
        (fun r l s => importedAttachment P content item = .ok r ∧
          Importing P follows n projectId content attachments l s)
        fun _ l s => Deletable follows n projectId l s :=
      Sharing.Triple.weaken (goes_checked fun _ => stays_importing) (fun _ _ _ h => h) (fun _ _ _ _ h => h)
        fun _ _ _ _ h => h.2.deletable
    apply triple_bind hchecked
    intro ⟨a, bytes⟩
    by_cases hok : importedAttachment P content item = .ok (a, bytes)
    case neg => exact Sharing.triple_never fun _ _ _ h => hok h.1
    obtain ⟨hslash, hbytes, hsize, hsha⟩ := importedAttachment_ok hok
    apply triple_bind (Sharing.Triple.weaken (goes_uploadImported hslash hbytes hsize hsha) (fun _ _ _ h => h.2)
      (fun _ _ _ _ h => h) fun _ _ _ _ h => h)
    exact fun _ => ih

theorem goes_storeImport {project : ProjectDocument} {items : List Value} (hid : project.id = projectId) :
    Goes P follows n (Importing P follows n projectId content []) (storeImport P owner project content items)
      (fun _ _ _ => True) fun _ l s => Deletable follows n projectId l s := by
  subst hid
  apply triple_bind goes_importAttachments
  intro all
  apply triple_ite
  · exact fun _ => triple_raise (fun _ => stays_importing) fun _ _ _ h => h.deletable
  intro _
  apply triple_ite
  · exact fun _ => triple_raise (fun _ => stays_importing) fun _ _ _ h => h.deletable
  intro _
  obtain ⟨imported, himported⟩ : ∃ p : ProjectDocument, p = { project with attachments := all } := ⟨_, rfl⟩
  have hinsert : Goes P follows n (Importing P follows n project.id content all) (insertProject P imported owner)
      (fun _ _ _ => True) fun _ l s => Deletable follows n project.id l s :=
    goes_insertProject (by rw [himported]) (by rw [himported])
  rw [← himported]
  apply triple_bind hinsert
  exact fun _ => triple_pure (fun _ => stable_const _) fun _ _ _ h => h

end

/-- A new document has no attachments. -/
theorem goes_sanitized {d : Draws} {value : Value} {id : JsString} :
    Goes P follows n (fun l s => l = [] ∧ Mine n id s) (checked (sanitizedProject P.toRuntime d value (.fresh id)))
      (fun p l s => (p.id = id ∧ p.attachments = []) ∧ l = [] ∧ Mine n id s) Thrown := by
  apply Sharing.Triple.weaken (goes_checked fun _ => (stable_const _).and stays_mine) (fun _ _ _ h => h)
  · intro p l s _ ⟨hok, h⟩
    have hbasis := sanitizedProject_basis P.toRuntime d value (.fresh id)
    rw [hok] at hbasis
    exact ⟨⟨hbasis.1, hbasis.2.2⟩, h⟩
  · exact fun _ _ _ _ _ => trivial

theorem goes_draw {F : Fact} (hF : ∀ l, Stays P follows n (F l)) :
    Goes P follows n F (request .draw) (fun _ l s => F l s) Thrown := by
  have h := goes_read (q := .draw) hF (fun _ _ => stable_const True) (fun _ _ => rfl) (fun _ => trivial)
    fun _ _ _ _ _ _ _ => trivial
  exact Sharing.Triple.weaken h (fun _ _ _ h => h) (fun _ _ _ _ h => h.1) fun _ _ _ _ _ => trivial

theorem goes_createProject {owner : JsString} {value : Value} :
    Goes P follows n (fun l _ => l = []) (createProject P n owner value) (fun _ _ _ => True) Thrown := by
  apply triple_bind goes_newProjectId
  intro id
  have hmine : ∀ l : List JsString, Stays P follows n fun s => l = [] ∧ Mine n id s :=
    fun _ => (stable_const _).and stays_mine
  apply triple_bind (Sharing.Triple.weaken (goes_draw hmine) (fun _ _ _ h => ⟨h.1, h.2.2⟩) (fun _ _ _ _ h => h)
    fun _ _ _ _ h => h)
  intro d
  apply triple_bind goes_sanitized
  intro p
  by_cases hp : p.id = id ∧ p.attachments = []
  case neg => exact Sharing.triple_never fun _ _ _ h => hp h.1
  have hinsert : Goes P follows n (Importing P follows n id .null []) (insertProject P p owner) (fun _ _ _ => True)
      fun _ l s => Deletable follows n id l s := goes_insertProject hp.1 hp.2
  apply triple_bind (Sharing.Triple.weaken hinsert (fun _ _ _ h => ⟨h.2.1, h.2.2, fun _ ha => absurd ha List.not_mem_nil⟩)
    (fun _ _ _ _ h => h) fun _ _ _ _ _ => trivial)
  exact fun _ => triple_pure (fun _ => stable_const _) fun _ _ _ h => h

theorem goes_importProject {owner : JsString} {value : Value} :
    Goes P follows n (fun l _ => l = []) (importProject P n owner value) (fun _ _ _ => True) Thrown := by
  apply triple_bind (goes_checked fun _ => stable_const _).thrown
  intro source
  apply triple_bind (Sharing.Triple.weaken goes_newProjectId (fun _ _ _ h => h.2) (fun _ _ _ _ h => h)
    fun _ _ _ _ h => h)
  intro id
  have hmine : ∀ l : List JsString, Stays P follows n fun s => l = [] ∧ Mine n id s :=
    fun _ => (stable_const _).and stays_mine
  apply triple_bind (Sharing.Triple.weaken (goes_draw hmine) (fun _ _ _ h => ⟨h.1, h.2.2⟩) (fun _ _ _ _ h => h)
    fun _ _ _ _ h => h)
  intro d
  apply triple_bind goes_sanitized
  intro p
  by_cases hp : p.id = id ∧ p.attachments = []
  case neg => exact Sharing.triple_never fun _ _ _ h => hp h.1
  have hstore : Goes P follows n (fun l s => (p.id = id ∧ p.attachments = []) ∧ l = [] ∧ Mine n id s)
      (storeImport P owner p source.content source.items) (fun _ _ _ => True)
      fun _ l s => Deletable follows n id l s :=
    Sharing.Triple.weaken (goes_storeImport hp.1) (fun _ _ _ h => ⟨h.2.1, h.2.2, fun _ ha => absurd ha List.not_mem_nil⟩)
      (fun _ _ _ _ h => h) fun _ _ _ _ h => h
  apply triple_handle hstore
  intro e
  apply triple_bind (triple_get fun _ => stays_deletable)
  intro uploaded
  apply Sharing.Triple.weaken (goes_deleteUploaded (l := uploaded))
  · intro l s _ ⟨hl, h⟩
    rw [hl]
    exact ⟨⟨[], rfl⟩, h⟩
  · exact fun _ _ _ _ h => h
  · exact fun _ _ _ _ h => h

/-! ## Any calls -/

/-- What a call that returned has left in the history of its project. -/
def Returned (P : Platform) (outcome : Outcome) (s : Stores) : Prop :=
  ∀ p, outcome.2 = .ok p → match outcome.1.request with
    | .updateProject owner projectId _ _ => Recorded P outcome.1.request owner projectId p s
    | .attachFile owner projectId _ _ => ∃ updated, Recorded P outcome.1.request owner projectId updated s
    | _ => True

/-- The steps that are spoken of: calls start under their own numbers, and where the objects are
followed no insertion of a project with attachments commits and throws. -/
def permit (follows : Prop) : Sharing.Permit Query Call Choice where
  starts n call := call.number = n
  choices c q := follows → ∀ owner p, q = .insert owner p → p.attachments ≠ [] → c.fault ≠ some .after

theorem returned_later (outcome : Outcome) (s s' : Stores) (h : Returned P outcome s) (hle : s.Later s') :
    Returned P outcome s' := by
  obtain ⟨⟨number, request⟩, result⟩ := outcome
  intro p hp
  have hreturned := h p hp
  cases request with
  | updateProject owner projectId value expectedRevision => exact recorded_later s s' hreturned hle
  | attachFile owner projectId value expectedRevision =>
    obtain ⟨updated, hrecorded⟩ := hreturned
    exact ⟨updated, recorded_later s s' hrecorded hle⟩
  | _ => trivial

theorem goes_run {call : Call} (hcall : call.number = n) :
    Goes P follows n (fun l _ => l = []) (call.run P) (fun p _ s => Returned P (call, .ok p) s) Thrown := by
  obtain ⟨number, request⟩ := call
  obtain rfl : number = n := hcall
  cases request with
  | createProject owner value =>
    exact Sharing.Triple.weaken goes_createProject (fun _ _ _ h => h) (fun _ _ _ _ _ _ _ => trivial) fun _ _ _ _ h => h
  | importProject owner value =>
    exact Sharing.Triple.weaken goes_importProject (fun _ _ _ h => h) (fun _ _ _ _ _ _ _ => trivial) fun _ _ _ _ h => h
  | updateProject owner projectId value expectedRevision =>
    apply Sharing.Triple.weaken goes_updateProject (fun _ _ _ _ => trivial) _ fun _ _ _ _ h => h
    intro p l s _ h q hq
    obtain rfl := Except.ok.inj hq
    exact h
  | attachFile owner projectId value expectedRevision =>
    apply Sharing.Triple.weaken goes_attachFile (fun _ _ _ _ => trivial) _ fun _ _ _ _ h => h
    exact fun p l s _ h q hq => h

/-- The calls are safe beside each other. -/
theorem works_hosts (P : Platform) (follows : Prop) :
    (sharing P follows).Hosts (permit follows) (works P) (Returned P) where
  answers s c q hc := ⟨c, rfl, hc⟩
  outside e := e.elim
  program n call s hcall hs := by
    apply Prog.Safe.bind ?_ ((goes_run hcall).meets [] s hs rfl)
    intro r s' hr s'' hrely p hp
    obtain ⟨r, l⟩ := r
    cases r with
    | ok a => exact (hr s'' hrely).2 p hp
    | error e => cases hp

end LilTweak.Workspace
