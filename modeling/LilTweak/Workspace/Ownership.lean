import LilTweak.Lib.Sharing
import LilTweak.Workspace.System
import Mathlib

/-!
# Who may touch what

A call owns the identifiers it drew. While the identifier of an attachment is not listed in a record,
or the one of a project has no row, only its owner touches the object under it; a record is replaced
by what its call computed from it. Whether the objects are followed is a parameter: they can only be
followed where no insertion commits and throws.
-/

namespace LilTweak.Workspace

open LilTweak.Lib

variable {P : Platform}

/-! ## What a call computes from a record -/

/-- A record as it is read. -/
def readRecord (record : ProjectDocument) : ProjectDocument :=
  { record with revision := readRevision record.revision }

/-- The request makes the new record from the old one. -/
inductive Computes (P : Platform) (old : ProjectDocument) : Request → ProjectDocument → Prop
  | update {owner projectId : JsString} {value : Value} {expectedRevision : ℚ} {d : Draws} {p : ProjectDocument}
      (h : sanitizedProject P.toRuntime d value (.existing (readRecord old)) = .ok p) :
      Computes P old (.updateProject owner projectId value expectedRevision)
        { p with revision := (readRecord old).revision + 1 }
  | attach {owner projectId : JsString} {value : Value} {expectedRevision : ℚ} {bytes : List UInt8} {id now : JsString}
      {attachment : Attachment} (hbytes : bytesFromBase64 (value.field "content_base64") = .ok bytes)
      (h : newAttachment P value bytes id = .ok attachment) :
      Computes P old (.attachFile owner projectId value expectedRevision) (attached (readRecord old) attachment now)

/-- A record grows by one revision and at most one attachment. -/
theorem Computes.grows {old new : ProjectDocument} {request : Request} (h : Computes P old request new) :
    new.id = old.id ∧ new.revision = readRevision old.revision + 1 ∧ ∀ a ∈ old.attachments, a ∈ new.attachments := by
  cases h with
  | @update _ _ value _ d p h =>
    have hbasis := sanitizedProject_basis P.toRuntime d value (.existing (readRecord old))
    rw [h] at hbasis
    refine ⟨hbasis.1, rfl, fun a ha => ?_⟩
    show a ∈ p.attachments
    rw [hbasis.2.2]
    exact ha
  | attach hbytes h => exact ⟨rfl, rfl, fun a ha => List.mem_append_left _ ha⟩

/-! ## Keys -/

/-- `/`. -/
abbrev slash : CodeUnit := Fin.ofNat 0x10000 '/'.toNat

theorem attachmentKey_inj {id id' x x' : JsString} (hid : slash ∉ id') (hx : slash ∉ x')
    (h : attachmentKey id x = attachmentKey id' x') : id = id' ∧ x = x' := by
  have hsplit : ∀ p q : JsString, attachmentKey p q = JsString.ofText "projects/" ++ (p ++ slash :: q) := by
    intro p q
    have hslash : JsString.ofText "/" = [slash] := by decide
    unfold attachmentKey
    rw [hslash, List.append_assoc, List.append_assoc, List.singleton_append]
  rw [hsplit, hsplit] at h
  obtain ⟨rfl, _, rfl⟩ := (List.append_cons_inj_of_notMem hid hx).mp (List.append_cancel_left h.symm)
  exact ⟨rfl, rfl⟩

theorem newId_no_slash {kind : String} {uuid : JsString} (hkind : slash ∉ JsString.ofText (kind ++ ":"))
    (h : JsString.hexOf 32 uuid = true) : slash ∉ newId kind uuid := by
  intro hmem
  rcases List.mem_append.mp hmem with hmem | hmem
  · exact hkind hmem
  · have hall := List.all_eq_true.mp (Bool.and_eq_true_iff.mp h).2 slash hmem
    revert hall
    decide

theorem validId_no_slash {kind : String} {id : JsString} (hkind : slash ∉ JsString.ofText (kind ++ ":"))
    (h : validId kind id = true) : slash ∉ id := by
  obtain ⟨hstart, hhex⟩ := Bool.and_eq_true_iff.mp h
  have hsplit : newId kind (id.drop (JsString.ofText (kind ++ ":")).length) = id :=
    List.prefix_iff_eq_append.mp (List.isPrefixOf_iff_prefix.mp hstart)
  rw [← hsplit]
  exact newId_no_slash hkind hhex

/-! ## The invariant -/

/-- The object has the size and the digest of the attachment. -/
def StoredFile.Holds (P : Platform) (a : Attachment) (file : StoredFile) : Prop :=
  file.bytes.length = a.sizeBytes ∧ P.sha256 file.bytes = a.sha256

/-- The object of the attachment is stored. -/
def Stores.Filed (P : Platform) (id : JsString) (a : Attachment) (s : Stores) : Prop :=
  ∃ file, s.objects.get? (attachmentKey id a.id) = some file ∧ file.Holds P a

/-- Each record comes from the one before it by a request. -/
def Chained (P : Platform) (row : Row) : Prop :=
  row.history.IsChain fun new old => ∃ request, Computes P old request new

/-- The record of the row lists an attachment with the identifier. -/
def Row.Lists (row : Row) (x : JsString) : Prop := ∃ a ∈ row.record.attachments, a.id = x

/-- What holds of a row under its identifier. -/
structure Row.Sound (P : Platform) (id : JsString) (row : Row) : Prop where
  named : row.record.id = id
  plain : slash ∉ id
  attachments : ∀ a ∈ row.record.attachments, slash ∉ a.id
  chained : Chained P row

/-- What holds of the stores; the objects of all records are there, where they are followed. -/
structure Stores.Sound (P : Platform) (follows : Prop) (s : Stores) : Prop where
  rows : ∀ id row, s.rows.get? id = some row → row.Sound P id
  drawn : ∀ x call, s.drawn.get? x = some call → slash ∉ x
  filed : follows → ∀ id row, s.rows.get? id = some row → ∀ a ∈ row.record.attachments, s.Filed P id a

/-- The row has been only added to. -/
structure Row.Later (row row' : Row) : Prop where
  owner : row'.owner = row.owner
  history : ∀ record ∈ row.history, record ∈ row'.history
  attachments : ∀ a ∈ row.record.attachments, a ∈ row'.record.attachments

theorem Row.Later.refl (row : Row) : row.Later row := ⟨rfl, fun _ h => h, fun _ h => h⟩

theorem Row.Later.trans {row row' row'' : Row} (h : row.Later row') (h' : row'.Later row'') : row.Later row'' :=
  ⟨h'.owner.trans h.owner, fun record hr => h'.history record (h.history record hr),
    fun a ha => h'.attachments a (h.attachments a ha)⟩

/-- No row goes, and each is only added to. -/
def Stores.Later (s s' : Stores) : Prop :=
  ∀ id row, s.rows.get? id = some row → ∃ row', s'.rows.get? id = some row' ∧ row.Later row'

theorem Stores.Later.refl (s : Stores) : s.Later s := fun _ row h => ⟨row, h, .refl row⟩

theorem Stores.Later.trans {s t u : Stores} (h : s.Later t) (h' : t.Later u) : s.Later u := by
  intro id row hrow
  obtain ⟨row', hrow', hlater⟩ := h id row hrow
  obtain ⟨row'', hrow'', hlater'⟩ := h' id row' hrow'
  exact ⟨row'', hrow'', hlater.trans hlater'⟩

/-- What the calls other than `n` leave alone. -/
structure Stores.Frame (follows : Prop) (n : Nat) (s s' : Stores) : Prop where
  drawn : ∀ x, s.drawn.get? x = some n → s'.drawn.get? x = some n
  free : ∀ x, s.drawn.get? x = some n → s.rows.get? x = none → s'.rows.get? x = none
  lists : ∀ x, s.drawn.get? x = some n → ∀ id row, s.rows.get? id = some row →
    ∃ row', s'.rows.get? id = some row' ∧ (row'.Lists x → row.Lists x)
  objects : follows → ∀ x, s.drawn.get? x = some n → ∀ id row, s.rows.get? id = some row →
    s'.objects.get? (attachmentKey id x) = s.objects.get? (attachmentKey id x)
  freeObjects : follows → ∀ x, s.drawn.get? x = some n → s.rows.get? x = none → ∀ aid, slash ∉ aid →
    s'.objects.get? (attachmentKey x aid) = s.objects.get? (attachmentKey x aid)

theorem Stores.Frame.refl {follows : Prop} (n : Nat) (s : Stores) : Stores.Frame follows n s s :=
  ⟨fun _ h => h, fun _ _ h => h, fun _ _ _ row h => ⟨row, h, fun h => h⟩, fun _ _ _ _ _ _ => rfl,
    fun _ _ _ _ _ _ => rfl⟩

theorem Stores.Frame.trans {follows : Prop} {n : Nat} {s t u : Stores} (h : Stores.Frame follows n s t)
    (h' : Stores.Frame follows n t u) : Stores.Frame follows n s u where
  drawn x hx := h'.drawn x (h.drawn x hx)
  free x hx hfree := h'.free x (h.drawn x hx) (h.free x hx hfree)
  lists := by
    intro x hx id row hrow
    obtain ⟨row', hrow', hlists⟩ := h.lists x hx id row hrow
    obtain ⟨row'', hrow'', hlists'⟩ := h'.lists x (h.drawn x hx) id row' hrow'
    exact ⟨row'', hrow'', fun hl => hlists (hlists' hl)⟩
  objects := by
    intro hf x hx id row hrow
    obtain ⟨row', hrow', _⟩ := h.lists x hx id row hrow
    exact (h'.objects hf x (h.drawn x hx) id row' hrow').trans (h.objects hf x hx id row hrow)
  freeObjects hf x hx hfree aid haid :=
    (h'.freeObjects hf x (h.drawn x hx) (h.free x hx hfree) aid haid).trans (h.freeObjects hf x hx hfree aid haid)

/-! ## Guards -/

/-- The key is one the call may write to: of an attachment it drew that no record of the project
lists, or of a project it drew that has no row. -/
def Owns (n : Nat) (s : Stores) (key : JsString) : Prop :=
  (∃ id x row, key = attachmentKey id x ∧ s.rows.get? id = some row ∧ s.drawn.get? x = some n ∧ ¬row.Lists x) ∨
  ∃ x aid, key = attachmentKey x aid ∧ slash ∉ aid ∧ s.drawn.get? x = some n ∧ s.rows.get? x = none

/-- What a call may ask. -/
def Query.Guard (P : Platform) (follows : Prop) (n : Nat) (s : Stores) : Query → Prop
  | newId call kind => call = n ∧ slash ∉ JsString.ofText (kind ++ ":")
  | insert _ p => s.drawn.get? p.id = some n ∧ ∀ a ∈ p.attachments, slash ∉ a.id ∧ (follows → s.Filed P p.id a)
  | update _ p expected => (∃ request, Computes P expected request p) ∧
      (p.attachments = expected.attachments ∨
        ∃ a, p.attachments = expected.attachments ++ [a] ∧ s.drawn.get? a.id = some n ∧ (follows → s.Filed P p.id a))
  | put key _ => follows → Owns n s key
  | delete key => follows → Owns n s key
  | _ => True

section
variable {follows : Prop} {n : Nat} {s : Stores} {c : Choice}

/-- An object under a key a call owns is no record's, and no other call's. -/
theorem Owns.apart {key : JsString} (h : Owns n s key) (hs : s.Sound P follows) :
    (∀ id row, s.rows.get? id = some row → ∀ a ∈ row.record.attachments, attachmentKey id a.id ≠ key) ∧
    (∀ m x, m ≠ n → s.drawn.get? x = some m → (∀ id row, s.rows.get? id = some row → attachmentKey id x ≠ key) ∧
      (s.rows.get? x = none → ∀ aid, slash ∉ aid → attachmentKey x aid ≠ key)) := by
  obtain ⟨id, x, row, rfl, hrow, hdrawn, hlists⟩ | ⟨x, aid, rfl, haid, hdrawn, hfree⟩ := h
  · have hid := (hs.rows id row hrow).plain
    have hx := hs.drawn x n hdrawn
    refine ⟨?_, ?_⟩
    · intro id' row' hrow' a ha he
      obtain ⟨rfl, hax⟩ := attachmentKey_inj hid hx he
      obtain rfl := Option.some.inj (hrow.symm.trans hrow')
      exact hlists ⟨a, ha, hax⟩
    · intro m y hm hy
      refine ⟨?_, ?_⟩
      · intro id' row' hrow' he
        obtain ⟨_, rfl⟩ := attachmentKey_inj hid hx he
        exact hm (Option.some.inj (hy.symm.trans hdrawn))
      · intro hnone aid haid he
        obtain ⟨rfl, _⟩ := attachmentKey_inj hid hx he
        rw [hrow] at hnone
        cases hnone
  · have hx := hs.drawn x n hdrawn
    refine ⟨?_, ?_⟩
    · intro id' row' hrow' a ha he
      obtain ⟨rfl, _⟩ := attachmentKey_inj hx haid he
      rw [hrow'] at hfree
      cases hfree
    · intro m y hm hy
      refine ⟨?_, ?_⟩
      · intro id' row' hrow' he
        obtain ⟨rfl, _⟩ := attachmentKey_inj hx haid he
        rw [hrow'] at hfree
        cases hfree
      · intro hnone aid' haid' he
        obtain ⟨rfl, _⟩ := attachmentKey_inj hx haid he
        exact hm (Option.some.inj (hy.symm.trans hdrawn))

/-- What a step of call `n` keeps. -/
def Kept (P : Platform) (follows : Prop) (n : Nat) (s s' : Stores) : Prop :=
  s'.Sound P follows ∧ s.Later s' ∧ ∀ m, m ≠ n → Stores.Frame follows m s s'

theorem Kept.same (hs : s.Sound P follows) : Kept P follows n s s := ⟨hs, .refl s, fun m _ => .refl m s⟩

/-- An object a call owns may be replaced or removed. -/
theorem Kept.objects {key : JsString} {objects : Dict JsString StoredFile} (hs : s.Sound P follows)
    (hkey : follows → Owns n s key) (hobjects : ∀ k, k ≠ key → objects.get? k = s.objects.get? k) :
    Kept P follows n s { s with objects := objects } := by
  refine ⟨⟨hs.rows, hs.drawn, ?_⟩, Stores.Later.refl s, fun m hm => ?_⟩
  · intro hf id row hrow a ha
    obtain ⟨file, hfile, hholds⟩ := hs.filed hf id row hrow a ha
    refine ⟨file, ?_, hholds⟩
    rw [← hfile]
    exact hobjects _ (((hkey hf).apart hs).1 id row hrow a ha)
  · refine ⟨fun _ h => h, fun _ _ h => h, fun _ _ _ row h => ⟨row, h, fun h => h⟩, ?_, ?_⟩
    · intro hf x hx id row hrow
      exact hobjects _ ((((hkey hf).apart hs).2 m x hm hx).1 id row hrow)
    · intro hf x hx hnone aid haid
      exact hobjects _ ((((hkey hf).apart hs).2 m x hm hx).2 hnone aid haid)

/-- An identifier nothing has may be drawn. -/
theorem Kept.drawn {x : JsString} (hs : s.Sound P follows) (hx : slash ∉ x) (hnew : s.drawn.get? x = none) :
    Kept P follows n s { s with drawn := s.drawn.set x n } := by
  refine ⟨⟨hs.rows, ?_, hs.filed⟩, Stores.Later.refl s, fun m hm => ?_⟩
  · intro y call hy
    rw [Dict.get?_set] at hy
    split at hy
    · next hyx => rwa [hyx]
    · exact hs.drawn y call hy
  · refine ⟨?_, fun _ _ h => h, fun _ _ _ row h => ⟨row, h, fun h => h⟩, fun _ _ _ _ _ _ => rfl,
      fun _ _ _ _ _ _ => rfl⟩
    intro y hy
    have hne : y ≠ x := by
      rintro rfl
      rw [hnew] at hy
      cases hy
    exact (Dict.get?_set_ne _ _ hne).trans hy

/-- A row may be inserted under an identifier the call drew. -/
theorem Kept.inserted {p : ProjectDocument} {owner : JsString} (hs : s.Sound P follows)
    (hdrawn : s.drawn.get? p.id = some n)
    (hattachments : ∀ a ∈ p.attachments, slash ∉ a.id ∧ (follows → s.Filed P p.id a))
    (hfree : s.rows.get? p.id = none) :
    Kept P follows n s { s with rows := s.rows.set p.id ⟨owner, p, []⟩ } := by
  have hget : ∀ id row, (s.rows.set p.id ⟨owner, p, []⟩).get? id = some row →
      id = p.id ∧ row = ⟨owner, p, []⟩ ∨ s.rows.get? id = some row := by
    intro id row hrow
    rw [Dict.get?_set] at hrow
    split at hrow
    · next hid => exact .inl ⟨hid, (Option.some.inj hrow).symm⟩
    · exact .inr hrow
  have hkeep : ∀ id row, s.rows.get? id = some row → (s.rows.set p.id ⟨owner, p, []⟩).get? id = some row := by
    intro id row hrow
    have hne : id ≠ p.id := by
      rintro rfl
      rw [hfree] at hrow
      cases hrow
    rw [Dict.get?_set_ne _ _ hne, hrow]
  refine ⟨⟨?_, hs.drawn, ?_⟩, fun id row hrow => ⟨row, hkeep id row hrow, .refl row⟩, fun m hm => ?_⟩
  · intro id row hrow
    obtain ⟨rfl, rfl⟩ | hrow := hget id row hrow
    · exact ⟨rfl, hs.drawn _ _ hdrawn, fun a ha => (hattachments a ha).1, .singleton _⟩
    · exact hs.rows id row hrow
  · intro hf id row hrow a ha
    obtain ⟨rfl, rfl⟩ | hrow := hget id row hrow
    · exact (hattachments a ha).2 hf
    · exact hs.filed hf id row hrow a ha
  · refine ⟨fun _ h => h, ?_, fun _ _ id row hrow => ⟨row, hkeep id row hrow, fun h => h⟩, fun _ _ _ _ _ _ => rfl,
      fun _ _ _ _ _ _ => rfl⟩
    intro x hx hnone
    have hne : x ≠ p.id := by
      rintro rfl
      exact hm (Option.some.inj (hx.symm.trans hdrawn))
    exact (Dict.get?_set_ne _ _ hne).trans hnone

/-- A record may be replaced by what a call computed from it. -/
theorem Kept.replaced {p : ProjectDocument} {row : Row} {request : Request} (hs : s.Sound P follows)
    (hrow : s.rows.get? p.id = some row) (hcomputes : Computes P row.record request p)
    (hattachments : p.attachments = row.record.attachments ∨ ∃ a, p.attachments = row.record.attachments ++ [a] ∧
      s.drawn.get? a.id = some n ∧ (follows → s.Filed P p.id a)) :
    Kept P follows n s { s with rows := s.rows.set p.id ⟨row.owner, p, row.history⟩ } := by
  have hsound := hs.rows p.id row hrow
  have hlater : row.Later ⟨row.owner, p, row.history⟩ :=
    ⟨rfl, fun record hr => List.mem_cons_of_mem _ hr, hcomputes.grows.2.2⟩
  have hnew : ∀ a ∈ p.attachments, a ∈ row.record.attachments ∨
      s.drawn.get? a.id = some n ∧ (follows → s.Filed P p.id a) := by
    intro a ha
    obtain hsame | ⟨b, happend, hb⟩ := hattachments
    · exact .inl (hsame ▸ ha)
    · rw [happend] at ha
      rcases List.mem_append.mp ha with ha | ha
      · exact .inl ha
      · rw [List.mem_singleton.mp ha]
        exact .inr hb
  refine ⟨⟨?_, hs.drawn, ?_⟩, ?_, fun m hm => ?_⟩
  · intro id row' hrow'
    rw [Dict.get?_set] at hrow'
    split at hrow'
    · next hid =>
      obtain rfl := Option.some.inj hrow'
      refine ⟨hid.symm, hid ▸ hsound.plain, ?_, .cons_cons ⟨request, hcomputes⟩ hsound.chained⟩
      intro a ha
      rcases hnew a ha with ha | ha
      · exact hsound.attachments a ha
      · exact hs.drawn _ _ ha.1
    · exact hs.rows id row' hrow'
  · intro hf id row' hrow' a ha
    rw [Dict.get?_set] at hrow'
    split at hrow'
    · next hid =>
      obtain rfl := Option.some.inj hrow'
      rw [hid]
      rcases hnew a ha with ha | ha
      · exact hs.filed hf p.id row hrow a ha
      · exact ha.2 hf
    · exact hs.filed hf id row' hrow' a ha
  · intro id row' hrow'
    by_cases hid : id = p.id
    · subst hid
      obtain rfl := Option.some.inj (hrow.symm.trans hrow')
      exact ⟨_, Dict.get?_set_self _ _ _, hlater⟩
    · exact ⟨row', (Dict.get?_set_ne _ _ hid).trans hrow', .refl row'⟩
  · refine ⟨fun _ h => h, ?_, ?_, fun _ _ _ _ _ _ => rfl, fun _ _ _ _ _ _ => rfl⟩
    · intro x hx hnone
      have hne : x ≠ p.id := by
        rintro rfl
        rw [hrow] at hnone
        cases hnone
      exact (Dict.get?_set_ne _ _ hne).trans hnone
    · intro x hx id row' hrow'
      by_cases hid : id = p.id
      · subst hid
        obtain rfl := Option.some.inj (hrow.symm.trans hrow')
        refine ⟨_, Dict.get?_set_self _ _ _, ?_⟩
        intro hlisted
        obtain ⟨a, ha, hax⟩ := hlisted
        rcases hnew a ha with ha | ha
        · exact ⟨a, ha, hax⟩
        · rw [hax, hx] at ha
          exact absurd (Option.some.inj ha.1) hm
      · exact ⟨row', (Dict.get?_set_ne _ _ hid).trans hrow', fun h => h⟩

/-- What a guarded question does is kept to. -/
theorem Kept.served {q : Query} (hs : s.Sound P follows) (hq : q.Guard P follows n s) :
    Kept P follows n s (s.serve c q).2 := by
  cases q with
  | newId call kind =>
    obtain ⟨rfl, hkind⟩ := hq
    simp only [Stores.serve]
    split
    · next hnew =>
      have hunused := hnew.2
      unfold Stores.unused at hunused
      simp only [Bool.and_eq_true, Option.isNone_iff_eq_none] at hunused
      exact .drawn hs (newId_no_slash hkind hnew.1) hunused.1.1
    · exact .same hs
  | insert owner p =>
    simp only [Stores.serve]
    split
    · exact .same hs
    · next hfree => exact .inserted hs hq.1 hq.2 hfree
  | update owner p expected =>
    obtain ⟨⟨request, hcomputes⟩, hattachments⟩ := hq
    simp only [Stores.serve]
    split
    · next row hrow =>
      split
      · next hmatch =>
        obtain ⟨_, rfl⟩ := hmatch
        exact .replaced hs hrow hcomputes hattachments
      · exact .same hs
    · exact .same hs
  | put key file => exact .objects hs hq fun k hk => Dict.get?_set_ne _ _ hk
  | delete key => exact .objects hs hq fun k hk => Dict.get?_erase_ne _ hk
  | _ => exact .same hs

/-- What the calls rely on and keep to, each under its number. -/
def sharing (P : Platform) (follows : Prop) : Sharing Query Query.Answer Stores where
  inv := Stores.Sound P follows
  le := Stores.Later
  frame := Stores.Frame follows
  guard n s q := q.Guard P follows n s
  answers s q a s' := ∃ c : Choice, s.perform c q = (a, s') ∧
    (follows → ∀ owner p, q = .insert owner p → p.attachments ≠ [] → c.fault ≠ some .after)
  le_refl := .refl
  le_trans := .trans
  frame_refl := .refl
  frame_trans := .trans
  step := by
    intro n s q a s' hs hq ⟨c, hc, _⟩
    have hs' : s' = (s.perform c q).2 := by rw [hc]
    have hserved : Kept P follows n s (s.serve c q).2 := .served hs hq
    have hkept : Kept P follows n s (s.perform c q).2 := by
      unfold Stores.perform
      cases c.fault with
      | none => exact hserved
      | some fault =>
        cases fault with
        | before => exact .same hs
        | after => exact hserved
    rw [hs']
    exact hkept

end

end LilTweak.Workspace
