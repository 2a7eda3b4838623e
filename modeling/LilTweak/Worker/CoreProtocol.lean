import LilTweak.Lib.JsValue
import LilTweak.Lib.Trim
import LilTweak.Worker.D1
import Mathlib

/-!
# Responses of the core

`parseCoreSnapshot` reads a JSON value into a snapshot, or refuses it. What it accepts is in normal form:
the summary is trimmed and short, names and media types are as the store keeps them, and no two items
of evidence share an identifier.
-/

namespace LilTweak.Worker

open LilTweak.Lib

/-! ## `encodeURIComponent` on any string -/

/-- The characters `encodeURIComponent` leaves alone. -/
def CodeUnit.unreserved (u : CodeUnit) : Bool :=
  u.between 'A' 'Z' || u.between 'a' 'z' || u.between '0' '9' || u.is '-' || u.is '_' || u.is '.' || u.is '!' ||
    u.is '~' || u.is '*' || u.is '\'' || u.is '(' || u.is ')'

/-- `%` and two digits for a byte. -/
def percentEncoded (b : UInt8) : JsString :=
  let digit (n : Nat) : CodeUnit := Fin.ofNat 0x10000 (if n < 10 then 48 + n else 55 + n)
  [Fin.ofNat 0x10000 '%'.toNat, digit (b.toNat / 16), digit (b.toNat % 16)]

/-- `encodeURIComponent`, `none` where it throws: a surrogate stands alone. -/
def encodeURIComponent? : JsString → Option JsString
  | u :: v :: rest =>
    if u.pair v then
      (encodeURIComponent? rest).map
        ((utf8Bytes (0x10000 + (u.val - 0xD800) * 0x400 + (v.val - 0xDC00))).flatMap percentEncoded ++ ·)
    else if 0xD800 ≤ u.val ∧ u.val < 0xE000 then none
    else (encodeURIComponent? (v :: rest)).map
      ((if CodeUnit.unreserved u then [u] else (utf8Bytes u.val).flatMap percentEncoded) ++ ·)
  | [u] =>
    if 0xD800 ≤ u.val ∧ u.val < 0xE000 then none
    else some (if CodeUnit.unreserved u then [u] else (utf8Bytes u.val).flatMap percentEncoded)
  | [] => some []

/-! ## Fields -/

/-- `value ?? fallback`. -/
def orElse (value fallback : Option Value) : Option Value :=
  match value with
  | none | some .null => fallback
  | some v => some v

/-- `typeof value === "string" ? value : ""`. -/
def textOrEmpty : Option Value → JsString
  | some (.str s) => s
  | _ => []

/-- A number that is a safe integer and not negative. -/
def safeNatural : Option Value → Option Int
  | some (.num x) => if x.den = 1 ∧ 0 ≤ x.num ∧ x.num ≤ maxSafeInteger then some x.num else none
  | _ => none

/-- `null`, or a text that is a digest. -/
def optionalDigest : Option Value → Option (Option JsString)
  | none | some .null => some none
  | some (.str s) => if JsString.hexOf 64 s then some (some s) else none
  | some _ => none

/-- `JOB_STATES`. -/
def jobStates : List JobState :=
  [.draft, .uploading, .queued, .ingesting, .planning, .executing, .testing, .collecting, .awaitingApproval,
    .applying, .completed, .rejected, .cancelled, .failed, .timedOut]

def evidenceCategories : List EvidenceCategory := [.plan, .patch, .tests, .manifest, .summary, .log]

def EvidenceCategory.text : EvidenceCategory → String
  | .plan => "plan"
  | .patch => "patch"
  | .tests => "tests"
  | .manifest => "manifest"
  | .summary => "summary"
  | .log => "log"

/-- `CORE_JOB_ID`. -/
def validCoreJobId (s : JsString) : Bool :=
  decide (1 ≤ s.length ∧ s.length ≤ 128) && s.all fun u =>
    u.between 'A' 'Z' || u.between 'a' 'z' || u.between '0' '9' || u.is '-'

/-- `[a-z0-9.+-]`. -/
def mediaTypeUnit (u : CodeUnit) : Bool :=
  u.between 'a' 'z' || u.between '0' '9' || u.is '.' || u.is '+' || u.is '-'

/-- `MEDIA_TYPE`. -/
def validMediaType (s : JsString) : Bool :=
  let part (s : JsString) : Bool := s ≠ [] && s.all mediaTypeUnit
  part (s.takeWhile fun u => !u.is '/') && s.any (·.is '/') && part ((s.dropWhile fun u => !u.is '/').drop 1)

/-! ## Approval proposals -/

/-- A value of a resource profile. -/
def scalar : Value → Option Scalar
  | .str s => some (.str s)
  | .num x => some (.num x)
  | .bool b => some (.bool b)
  | _ => none

variable (r : Runtime)

/-- `parseApprovalProposal`, `none` where it throws. -/
def parseApprovalProposal (input : Value) : Option ApprovalProposal := do
  if textOrEmpty (input.field "action") ≠ JsString.ofText "export_patch" ∨
      textOrEmpty (input.field "target") ≠ JsString.ofText "owner_download" then none
  else
    match input.field "policyVersion", input.field "sourceDigest", input.field "proposalDigest",
      input.field "expiresAt", input.field "resourceProfile" with
    | some (.str policyVersion), some (.str sourceDigest), some (.str proposalDigest), some (.str expiresAt),
      some (.obj entries) => do
      let resourceProfile ← entries.mapM fun e => (scalar e.2).map fun s => (e.1, s)
      let p : ApprovalProposal := { policyVersion, resourceProfile, sourceDigest, proposalDigest, expiresAt }
      if p.admits r then some p else none
    | _, _, _, _, _ => none

/-- `approvalProposal`, `none` where it throws. -/
def approvalProposal (value : Option Value) (proposalDigest sourceDigest : Option JsString) :
    Option (Option ApprovalProposal) :=
  match value with
  | none | some .null => some none
  | some (.obj fields) =>
    let allowed := ["action", "target", "policyVersion", "resourceProfile", "sourceDigest", "proposalDigest",
      "expiresAt"].map JsString.ofText
    if fields.any fun e => !allowed.contains e.1 then none
    else
      match parseApprovalProposal r (.obj fields) with
      | none => none
      | some p => if some p.sourceDigest = sourceDigest ∧ some p.proposalDigest = proposalDigest then some (some p) else none
  | some _ => none

/-! ## Evidence -/

/-- `safeSourceFilename` of a value, `none` where it throws. -/
def portableName : Option Value → Option JsString
  | some (.str s) => safeSourceFilename s
  | _ => none

/-- `evidenceDescriptor`, `none` where it throws. -/
def evidenceDescriptor (item : Value) (remoteJobId : JsString) : Option CoreEvidence :=
  match item with
  | .obj _ => do
    let id := textOrEmpty (item.field "id")
    let category ← evidenceCategories.find? fun c => JsString.ofText c.text = textOrEmpty (item.field "category")
    let filename ← portableName (item.field "filename")
    let mediaType := (textOrEmpty (item.field "mediaType")).trim.map CodeUnit.lower
    let sizeBytes ← safeNatural (item.field "sizeBytes")
    let sha256 := textOrEmpty (item.field "sha256")
    let createdAt := textOrEmpty (item.field "createdAt")
    let corePath := textOrEmpty (item.field "corePath")
    let encoded ← encodeURIComponent? filename
    let expectedPath := JsString.ofText "/v1/jobs/" ++ remoteJobId ++ JsString.ofText "/evidence/" ++ encoded
    let time ← r.dateParse createdAt
    if validEvidenceId id = true ∧ validMediaType mediaType = true ∧ mediaType.length ≤ 120 ∧
        sizeBytes ≤ maxEngineeringEvidenceBytes ∧ JsString.hexOf 64 sha256 = true ∧ createdAt ≠ [] ∧
        corePath = expectedPath then
      some { id, category, filename, mediaType, sizeBytes, sha256, createdAt := r.toISOString time, corePath }
    else none
  | _ => none

/-! ## Snapshots -/

/-- The job of the core a response names. -/
def remoteJobIdOf (input : Value) : Option JsString :=
  match input.field "id", input.field "remoteJobId" with
  | some (.str s), _ => some s
  | _, some (.str s) => some s
  | _, _ => none

/-- A state by its text. -/
def jobState : Option Value → Option JobState
  | some (.str s) => jobStates.find? fun state => JsString.ofText state.text = s
  | _ => none

/-- `value ?? false`, where it is a boolean. -/
def flag : Option Value → Option Bool
  | none | some .null => some false
  | some (.bool b) => some b
  | some _ => none

/-- `value ?? []`, where it is an array. -/
def listOrEmpty : Option Value → Option (List Value)
  | none | some .null => some []
  | some (.arr items) => some items
  | some _ => none

/-- The states that ask for an approval that was proposed, and for one that was consumed. -/
def approvalFits (state : JobState) (parsed : Option ApprovalProposal) (approvalConsumed : Bool) : Bool :=
  !(decide (state = .awaitingApproval) && (parsed.isNone || approvalConsumed)) &&
    !(parsed.isSome && decide (state = .applying) && approvalConsumed) &&
    !(parsed.isSome && decide (state = .completed) && !approvalConsumed) &&
    !(approvalConsumed && decide (state ≠ .completed))

/-- `parseCoreSnapshot`, `none` where it throws. -/
def parseCoreSnapshot (input : Value) : Option (Option JsString × CoreSnapshot) :=
  match input with
  | .obj _ => do
    let state ← jobState (input.field "state")
    let coreRevision ← safeNatural (orElse (input.field "coreRevision") (input.field "revision"))
    let summary := (textOrEmpty (input.field "summary")).trim
    let proposalDigest ← optionalDigest (orElse (input.field "proposalDigest") (input.field "proposal_digest"))
    let sourceDigest ← optionalDigest (orElse (input.field "sourceDigest") (input.field "source_digest"))
    let approvalConsumed ← flag (orElse (input.field "approvalConsumed") (input.field "approval_consumed"))
    let remoteJobId := remoteJobIdOf input
    if summary.length > 2000 ∨ (remoteJobId.any fun id => !validCoreJobId id) = true then none
    else do
      let parsedApproval ← approvalProposal r (input.field "approvalProposal") proposalDigest sourceDigest
      if approvalFits state parsedApproval approvalConsumed = false then none
      else do
        let values ← listOrEmpty (input.field "evidence")
        if values.length > 10 ∨ values ≠ [] ∧ remoteJobId = none then none
        else do
          let evidence ← values.mapM fun item => evidenceDescriptor r item (remoteJobId.getD [])
          if (evidence.flatMap fun e => [e.id, e.filename, e.corePath]).Nodup then
            some (remoteJobId,
              { state, summary, coreRevision, proposalDigest, sourceDigest, approvalProposal := parsedApproval
                approvalConsumed, evidence })
          else none
  | _ => none

/-! ## What is accepted -/

/-- A snapshot in normal form. -/
structure CoreSnapshot.Parsed (s : CoreSnapshot) : Prop where
  trimmed : s.summary.trim = s.summary
  short : s.summary.length ≤ 2000
  awaiting : s.state = .awaitingApproval → s.approvalProposal.isSome = true
  consumed : s.approvalConsumed = true → s.state = .completed
  evidence : ∀ e ∈ s.evidence, evidenceRow e = some e.toEvidence
  ids : (s.evidence.map fun e => e.id).Nodup

theorem mediaTypeUnit_plain {u : CodeUnit} (h : mediaTypeUnit u = true ∨ u.is '/' = true) :
    jsSpace u = false ∧ u.lower = u := by
  have hval : u.val = 0x2F ∨ u.val = 0x2E ∨ u.val = 0x2B ∨ u.val = 0x2D ∨
      (0x61 ≤ u.val ∧ u.val ≤ 0x7A) ∨ (0x30 ≤ u.val ∧ u.val ≤ 0x39) := by
    simp only [mediaTypeUnit, CodeUnit.between, CodeUnit.is, Bool.or_eq_true, Bool.and_eq_true, decide_eq_true_eq,
      beq_iff_eq] at h
    rcases h with ((((h | h) | h) | h) | h) | h
    · exact .inr (.inr (.inr (.inr (.inl h))))
    · exact .inr (.inr (.inr (.inr (.inr h))))
    · exact .inr (.inl h)
    · exact .inr (.inr (.inl h))
    · exact .inr (.inr (.inr (.inl h)))
    · exact .inl h
  constructor
  · have hspace : ¬jsSpace u = true := by
      simp only [jsSpace, Bool.or_eq_true, Bool.and_eq_true, decide_eq_true_eq]
      omega
    exact Bool.eq_false_iff.mpr hspace
  · have hupper : u.between 'A' 'Z' = false := by
      apply Bool.eq_false_iff.mpr
      simp only [CodeUnit.between, ne_eq, Bool.and_eq_true, decide_eq_true_eq]
      have ha : 'A'.toNat = 0x41 := rfl
      have hz : 'Z'.toNat = 0x5A := rfl
      omega
    have hkelvin : (u.val == 0x212A) = false := by
      apply Bool.eq_false_iff.mpr
      simp only [ne_eq, beq_iff_eq]
      omega
    unfold CodeUnit.lower
    rw [hupper, hkelvin]
    rfl

/-- The characters of a valid media type. -/
theorem validMediaType_units {s : JsString} (h : validMediaType s = true) :
    ∀ u ∈ s, mediaTypeUnit u = true ∨ u.is '/' = true := by
  simp only [validMediaType, Bool.and_eq_true, List.all_eq_true] at h
  obtain ⟨⟨⟨_, hfront⟩, _⟩, _, hback⟩ := h
  intro u hu
  rw [← List.takeWhile_append_dropWhile (p := fun u : CodeUnit => !u.is '/') (l := s)] at hu
  rcases List.mem_append.mp hu with hu | hu
  · exact .inl (hfront u hu)
  · cases hdrop : s.dropWhile fun u => !u.is '/' with
    | nil =>
      rw [hdrop] at hu
      cases hu
    | cons v rest =>
      rw [hdrop] at hu hback
      have hslash := List.head?_dropWhile_not (fun u : CodeUnit => !u.is '/') s
      rw [hdrop] at hslash
      rcases List.mem_cons.mp hu with rfl | hu
      · exact .inr (by simpa using hslash)
      · exact .inl (hback u hu)

/-- A valid media type is as the store keeps it. -/
theorem sourceMediaType_valid {s : JsString} (h : validMediaType s = true) (hlength : s.length ≤ 120) :
    sourceMediaType s = some s := by
  have hunits := validMediaType_units h
  have htrim : s.trim = s := trim_eq_self fun u hu => (mediaTypeUnit_plain (hunits u hu)).1
  have hlower : s.map CodeUnit.lower = s := by
    conv_rhs => rw [← List.map_id s]
    exact List.map_congr_left fun u hu => (mediaTypeUnit_plain (hunits u hu)).2
  have hne : s ≠ [] := by
    rintro rfl
    exact absurd h (by decide)
  obtain ⟨hfront, hback⟩ := Bool.and_eq_true_iff.mp h
  obtain ⟨hfront, hslash⟩ := Bool.and_eq_true_iff.mp hfront
  unfold sourceMediaType
  simp only [htrim, hlower, if_neg hne]
  exact if_pos ⟨hlength, hfront, hslash, hback⟩

/-- A name that was made safe stays as it is. -/
theorem safeSourceFilename_idem {s filename : JsString} (h : safeSourceFilename s = some filename) :
    safeSourceFilename filename = some filename := by
  unfold safeSourceFilename at h ⊢
  simp only at h ⊢
  split at h
  · cases h
  · next hsafe =>
    obtain rfl := Option.some.inj h
    rw [JsString.trim_trim, if_neg hsafe]

theorem safeNatural_bounds {value : Option Value} {n : Int} (h : safeNatural value = some n) :
    isSafeInteger n = true ∧ 0 ≤ n := by
  unfold safeNatural at h
  split at h
  · split at h
    · next hx =>
      obtain rfl := Option.some.inj h
      obtain ⟨_, hnonneg, hsafe⟩ := hx
      refine ⟨decide_eq_true ⟨?_, hsafe⟩, hnonneg⟩
      have hmax : 0 ≤ maxSafeInteger := by decide
      omega
    · cases h
  · cases h

variable {r : Runtime}

theorem evidenceDescriptor_row {item : Value} {remoteJobId : JsString} {e : CoreEvidence}
    (h : evidenceDescriptor r item remoteJobId = some e) : evidenceRow e = some e.toEvidence := by
  unfold evidenceDescriptor at h
  split at h
  case h_2 => cases h
  simp only [Option.bind_eq_bind, Option.bind_eq_some_iff] at h
  obtain ⟨category, _, filename, hfilename, sizeBytes, hsize, encoded, _, time, _, h⟩ := h
  split at h
  case isFalse => cases h
  next hvalid =>
  obtain ⟨hid, hmedia, hlength, hlimit, hsha, _, _⟩ := hvalid
  obtain rfl := Option.some.inj h
  obtain ⟨hsafe, hnonneg⟩ := safeNatural_bounds hsize
  have hname : safeSourceFilename filename = some filename := by
    unfold portableName at hfilename
    split at hfilename
    · exact safeSourceFilename_idem hfilename
    · cases hfilename
  unfold evidenceRow
  simp only [hid, hname, sourceMediaType_valid hmedia hlength, Bool.true_eq_false, if_false, Option.bind_eq_bind,
    Option.bind_some, hsafe, hnonneg, hlimit, hsha, and_self, if_true]

/-- What comes out of a list comes out of one of its items. -/
theorem mem_of_mapM_some {α β : Type} {f : α → Option β} {l : List α} {l' : List β} (h : l.mapM f = some l') :
    ∀ b ∈ l', ∃ a ∈ l, f a = some b := by
  induction l generalizing l' with
  | nil =>
    obtain rfl := Option.some.inj h
    intro b hb
    cases hb
  | cons a l ih =>
    simp only [List.mapM_cons, Option.bind_eq_bind, Option.bind_eq_some_iff] at h
    obtain ⟨c, hc, rest, hrest, h⟩ := h
    obtain rfl := Option.some.inj h
    intro b hb
    rcases List.mem_cons.mp hb with rfl | hb
    · exact ⟨a, List.mem_cons_self, hc⟩
    · obtain ⟨x, hx, hfx⟩ := ih hrest b hb
      exact ⟨x, List.mem_cons_of_mem _ hx, hfx⟩

theorem parseCoreSnapshot_parsed {input : Value} {remoteJobId : Option JsString} {snapshot : CoreSnapshot}
    (h : parseCoreSnapshot r input = some (remoteJobId, snapshot)) : snapshot.Parsed := by
  unfold parseCoreSnapshot at h
  split at h
  case h_2 => cases h
  simp only [Option.bind_eq_bind, Option.bind_eq_some_iff] at h
  obtain ⟨state, _, coreRevision, _, proposalDigest, _, sourceDigest, _, approvalConsumed, _, h⟩ := h
  split at h
  · cases h
  next hshort =>
  simp only [Option.bind_eq_some_iff] at h
  obtain ⟨parsedApproval, _, h⟩ := h
  split at h
  · cases h
  next hfits =>
  simp only [Option.bind_eq_some_iff] at h
  obtain ⟨values, _, h⟩ := h
  split at h
  · cases h
  simp only [Option.bind_eq_some_iff] at h
  obtain ⟨evidence, hevidence, h⟩ := h
  split at h
  case isFalse => cases h
  next hdistinct =>
  obtain ⟨_, rfl⟩ := Prod.mk.inj (Option.some.inj h)
  have happroval : approvalFits state parsedApproval approvalConsumed = true := by simpa using hfits
  simp only [approvalFits, Bool.and_eq_true, Bool.not_eq_true', Bool.and_eq_false_iff, Bool.or_eq_false_iff,
    decide_eq_false_iff_not] at happroval
  obtain ⟨⟨⟨hawaiting, _⟩, _⟩, hconsumed⟩ := happroval
  refine ⟨JsString.trim_trim _, ?_, ?_, ?_, ?_, ?_⟩
  · exact Nat.le_of_not_lt (not_or.mp hshort).1
  · intro hstate
    rcases hawaiting with hne | ⟨hnone, _⟩
    · exact absurd hstate hne
    · simpa using hnone
  · intro hc
    rcases hconsumed with hnot | hstate
    · rw [hnot] at hc
      cases hc
    · exact not_not.mp hstate
  · intro e he
    obtain ⟨item, _, hitem⟩ := mem_of_mapM_some hevidence e he
    exact evidenceDescriptor_row hitem
  · have hids : (evidence.map fun e => e.id).Sublist (evidence.flatMap fun e => [e.id, e.filename, e.corePath]) := by
      clear h hdistinct hevidence
      induction evidence with
      | nil => exact .slnil
      | cons e rest ih =>
        rw [List.map_cons, List.flatMap_cons]
        exact (((ih.cons _).cons _).cons_cons _)
    exact hdistinct.sublist hids

end LilTweak.Worker
