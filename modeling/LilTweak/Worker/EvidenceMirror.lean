import LilTweak.Lib.Discipline
import LilTweak.Lib.Pool
import LilTweak.Worker.D1
import Mathlib

/-!
# Evidence in the bucket

`mirrorCoreEvidence` copies the evidence of a snapshot to keys that are written once. Any number of
runs share the bucket, and any of them may stop between two of its requests; what a run finds under
a key it did not write is what another one fetched and checked.
-/

namespace LilTweak.Worker.EvidenceMirror

open LilTweak.Lib

/-- An object of the bucket. -/
structure StoredObject where
  bytes : List UInt8
  contentType : JsString
  customMetadata : Dict JsString JsString
  deriving DecidableEq

/-- The size the bucket reports. -/
def StoredObject.size (o : StoredObject) : Int := o.bytes.length

/-- `object.customMetadata?.sha256`. -/
def StoredObject.sha256 (o : StoredObject) : Option JsString := o.customMetadata.get? (JsString.ofText "sha256")

/-- `FetchedEvidence`. -/
structure FetchedEvidence where
  bytes : List UInt8
  sizeBytes : Int
  sha256 : JsString
  mediaType : JsString
  deriving DecidableEq

/-- The input of `mirrorCoreEvidence`, less the bucket and the fetcher. -/
structure Input where
  ownerScope : JsString
  jobId : JsString
  remoteJobId : JsString
  evidence : List CoreEvidence
  deriving DecidableEq

/-! ## Keys -/

/-- `OWNER_HASH`. -/
def ownerHash (s : JsString) : Bool :=
  decide (8 ≤ s.length ∧ s.length ≤ 64) && s.all fun u =>
    u.between 'a' 'z' || u.between 'A' 'Z' || u.between '0' '9' || u.is '_' || u.is '-'

/-- `IDENTIFIER`. -/
def identifier (s : JsString) : Bool :=
  ["job:", "src:", "evidence:"].any fun p => s.startsWith p && JsString.hexOf 32 (s.drop (JsString.ofText p).length)

/-- The kinds of objects. -/
inductive ObjectKind
  | source | evidence
  deriving DecidableEq

def ObjectKind.expectedPrefix : ObjectKind → String
  | source => "src:"
  | evidence => "evidence:"

def ObjectKind.collection : ObjectKind → String
  | source => "sources"
  | evidence => "evidence"

/-- What a run throws; `unavailable` is what the bucket and the fetcher throw. -/
inductive MirrorError
  | identifier | integrity | storage | immutableObjectConflict | unavailable
  deriving DecidableEq

/-- `engineeringObjectKey`. -/
def engineeringObjectKey (owner jobId : JsString) (kind : ObjectKind) (objectId : JsString) :
    Except MirrorError JsString :=
  if ownerHash owner = false ∨ identifier jobId = false ∨ identifier objectId = false ∨
      objectId.startsWith kind.expectedPrefix = false then .error .identifier
  else .ok (JsString.ofText "engineering/" ++ owner ++ JsString.ofText "/jobs/" ++ jobId ++ JsString.ofText "/" ++
    JsString.ofText kind.collection ++ JsString.ofText "/" ++ objectId)

/-! ## Runs -/

inductive Query
  | head (key : JsString)
  | put (key : JsString) (bytes : List UInt8) (contentType : JsString) (customMetadata : Dict JsString JsString)
  | fetch (remoteJobId : JsString) (descriptor : CoreEvidence)

/-- What a request is answered with; a conditional `put` that finds an object stores nothing. -/
def Query.Reply : Query → Type
  | head _ => Option StoredObject
  | put .. => Option StoredObject
  | fetch .. => FetchedEvidence

/-- `none` where the request throws. -/
def Query.Answer (q : Query) : Type := Option q.Reply

abbrev Method := Act Query Query.Answer Unit MirrorError

/-- A request; what it throws is thrown on. -/
def request (q : Query) : Method q.Reply := do
  let answer : Option q.Reply ← Act.query q
  match answer with
  | some reply => pure reply
  | none => Act.raise .unavailable

/-- `bucket.head(key)`. -/
def head (key : JsString) : Method (Option StoredObject) := request (.head key)

/-- `fetchEvidence(remoteJobId, descriptor)`. -/
def fetchEvidence (remoteJobId : JsString) (descriptor : CoreEvidence) : Method FetchedEvidence :=
  request (.fetch remoteJobId descriptor)

/-- `putImmutableObject`. -/
def putImmutableObject (key : JsString) (bytes : List UInt8) (contentType : JsString)
    (customMetadata : Dict JsString JsString) : Method StoredObject := do
  let object : Option StoredObject ← request (.put key bytes contentType customMetadata)
  match object with
  | none => Act.raise .immutableObjectConflict
  | some object => pure object

/-- `immutableEvidenceMatches`. -/
def immutableEvidenceMatches (object : Option StoredObject) (descriptor : CoreEvidence) : Bool :=
  object.any fun object =>
    decide (object.size = descriptor.sizeBytes) && decide (0 ≤ object.size) &&
      decide (object.size ≤ maxEngineeringEvidenceBytes) && decide (object.sha256 = some descriptor.sha256)

/-- The checks on what was fetched. -/
def FetchedEvidence.verified (fetched : FetchedEvidence) (descriptor : CoreEvidence) : Bool :=
  isSafeInteger fetched.sizeBytes && decide (fetched.sizeBytes = descriptor.sizeBytes) &&
    decide (0 ≤ fetched.sizeBytes) && decide (fetched.sizeBytes ≤ maxEngineeringEvidenceBytes) &&
    decide ((fetched.bytes.length : Int) = fetched.sizeBytes) && decide (fetched.sha256 = descriptor.sha256) &&
    decide (fetched.mediaType = descriptor.mediaType)

/-- The custom metadata of evidence. -/
def evidenceMetadata (jobId : JsString) (descriptor : CoreEvidence) : Dict JsString JsString :=
  (((∅ : Dict JsString JsString).set (JsString.ofText "sha256") descriptor.sha256).set
    (JsString.ofText "evidenceId") descriptor.id).set (JsString.ofText "jobId") jobId

/-- What the handler of a failed `putImmutableObject` goes on with. -/
def raced (key : JsString) (descriptor : CoreEvidence) : MirrorError → Method StoredObject
  | .immutableObjectConflict => do
    let raced ← head key
    match raced with
    | none => Act.raise .integrity
    | some object =>
      if immutableEvidenceMatches (some object) descriptor = false then Act.raise .integrity else pure object
  | error => Act.raise error

/-- One turn of the loop of `mirrorCoreEvidence`. -/
def mirrorOne (input : Input) (descriptor : CoreEvidence) : Method CoreEvidence :=
  match engineeringObjectKey input.ownerScope input.jobId .evidence descriptor.id with
  | .error e => Act.raise e
  | .ok key => do
    let existing ← head key
    match existing with
    | some existing =>
      if immutableEvidenceMatches (some existing) descriptor = false then Act.raise .integrity
      else pure { descriptor with sizeBytes := existing.size }
    | none => do
      let fetched ← fetchEvidence input.remoteJobId descriptor
      if fetched.verified descriptor = false then Act.raise .integrity
      else do
        let stored ← (putImmutableObject key fetched.bytes descriptor.mediaType
          (evidenceMetadata input.jobId descriptor)).handle (raced key descriptor)
        if stored.size ≠ fetched.sizeBytes then Act.raise .storage
        else pure { descriptor with sizeBytes := fetched.sizeBytes }

/-- The loop of `mirrorCoreEvidence`. -/
def mirrorEach (input : Input) : List CoreEvidence → List CoreEvidence → Method (List CoreEvidence)
  | [], mirrored => pure mirrored
  | descriptor :: rest, mirrored => do
    let item ← mirrorOne input descriptor
    mirrorEach input rest (mirrored ++ [item])

/-- `mirrorCoreEvidence`. -/
def mirrorCoreEvidence (input : Input) : Method (List CoreEvidence) := mirrorEach input input.evidence []

/-! ## The bucket -/

/-- A fetch that was answered. -/
structure Fetch where
  remoteJobId : JsString
  descriptor : CoreEvidence
  fetched : FetchedEvidence

/-- The bucket, and a record of the fetches that were answered. -/
structure Storage where
  objects : Dict JsString StoredObject
  fetches : List Fetch := []

/-- Where a request fails: before it does anything, or after. -/
inductive Fault
  | before | after
  deriving DecidableEq

/-- What is left open of a step: whether the request fails, and what the core sends. -/
structure Choice where
  fault : Option Fault := none
  bytes : List UInt8 := []
  sizeBytes : Int := 0
  mediaType : JsString := []

/-- What a request does; a fetch carries the digest of the bytes that came. -/
def Storage.serve (digest : List UInt8 → JsString) (s : Storage) (c : Choice) : (q : Query) → q.Reply × Storage
  | .head key => (s.objects.get? key, s)
  | .put key bytes contentType customMetadata =>
    match s.objects.get? key with
    | some _ => (none, s)
    | none =>
      let object : StoredObject := ⟨bytes, contentType, customMetadata⟩
      (some object, { s with objects := s.objects.set key object })
  | .fetch remoteJobId descriptor =>
    let fetched : FetchedEvidence := ⟨c.bytes, c.sizeBytes, digest c.bytes, c.mediaType⟩
    (fetched, { s with fetches := s.fetches ++ [⟨remoteJobId, descriptor, fetched⟩] })

/-- A request as it goes: it is served and answered, or it fails before or after. -/
def Storage.perform (digest : List UInt8 → JsString) (s : Storage) (c : Choice) (q : Query) : q.Answer × Storage :=
  match c.fault with
  | none => (some (s.serve digest c q).1, (s.serve digest c q).2)
  | some .before => (none, s)
  | some .after => (none, (s.serve digest c q).2)

/-- A run and what became of it. -/
abbrev Outcome := Input × Except MirrorError (List CoreEvidence)

/-- The runs at work on the bucket. -/
def works (digest : List UInt8 → JsString) : PoolSpec Query Query.Answer Outcome Storage Input Choice Empty where
  program input := (mirrorCoreEvidence input ()).bind fun r => .done (input, r.1)
  perform := Storage.perform digest
  outside e := e.elim

abbrev System := Pool Query Query.Answer Outcome Storage

abbrev Event := PoolEvent Input Choice Empty

/-- One step of the system. -/
abbrev System.Step (digest : List UInt8 → JsString) : System → Event → System → Prop := Pool.Step (works digest)

/-! ## The name in a key -/

/-- `/`. -/
abbrev slash : CodeUnit := Fin.ofNat 0x10000 '/'.toNat

/-- What comes after the last slash. -/
def objectName (key : JsString) : JsString := (key.reverse.takeWhile fun u => decide (u ≠ slash)).reverse

theorem objectName_append {base id : JsString} (h : slash ∉ id) : objectName (base ++ slash :: id) = id := by
  unfold objectName
  have hall : ∀ u ∈ id.reverse, decide (u ≠ slash) = true := by
    intro u hu
    apply decide_eq_true
    intro he
    exact h (he ▸ List.mem_reverse.mp hu)
  rw [List.reverse_append, List.reverse_cons, List.append_assoc, List.takeWhile_append_of_pos hall,
    List.singleton_append, List.takeWhile_cons_of_neg (by simp), List.append_nil, List.reverse_reverse]

theorem identifier_no_slash {s : JsString} (h : identifier s = true) : slash ∉ s := by
  obtain ⟨p, hp, hs⟩ := List.any_eq_true.mp h
  obtain ⟨hstart, hhex⟩ := Bool.and_eq_true_iff.mp hs
  have hsplit : JsString.ofText p ++ s.drop (JsString.ofText p).length = s :=
    List.prefix_iff_eq_append.mp (List.isPrefixOf_iff_prefix.mp hstart)
  have hbegins : slash ∉ JsString.ofText p := by
    have hnone : ∀ p ∈ ["job:", "src:", "evidence:"], slash ∉ JsString.ofText p := by decide +kernel
    exact hnone p hp
  have hrest : slash ∉ s.drop (JsString.ofText p).length := by
    intro hmem
    have hall := (Bool.and_eq_true_iff.mp hhex).2
    have hslash := List.all_eq_true.mp hall slash hmem
    revert hslash
    decide
  intro hmem
  rw [← hsplit] at hmem
  exact (List.mem_append.mp hmem).elim hbegins hrest

/-- A key names its object. -/
theorem objectName_key {owner job id key : JsString} {kind : ObjectKind}
    (h : engineeringObjectKey owner job kind id = .ok key) : objectName key = id := by
  unfold engineeringObjectKey at h
  split at h
  · cases h
  · next hok =>
    obtain rfl := Except.ok.inj h
    have hid : identifier id = true := by
      by_contra hno
      exact hok (.inr (.inr (.inl (Bool.eq_false_iff.mpr hno))))
    have hslash : JsString.ofText "/" = [slash] := by decide
    rw [hslash, List.append_assoc _ [slash] id, List.singleton_append]
    exact objectName_append (identifier_no_slash hid)

/-! ## What the bucket always holds -/

section
variable {digest : List UInt8 → JsString} {s s' : Storage} {input : Input} {descriptor : CoreEvidence}
  {key : JsString}

/-- The key of some evidence. -/
def EvidenceKey (key : JsString) : Prop :=
  ∃ owner job id, engineeringObjectKey owner job .evidence id = .ok key

/-- The object is what this fetch brought, and is as its descriptor says. -/
structure Fetch.Fits (digest : List UInt8 → JsString) (f : Fetch) (object : StoredObject) : Prop where
  bytes : object.bytes = f.fetched.bytes
  size : object.size = f.descriptor.sizeBytes
  digested : digest object.bytes = f.descriptor.sha256
  fetchedType : f.fetched.mediaType = f.descriptor.mediaType
  contentType : object.contentType = f.descriptor.mediaType
  recorded : object.sha256 = some f.descriptor.sha256

/-- What is stored under the key of evidence was fetched for a descriptor with its id. -/
def Storage.Sound (digest : List UInt8 → JsString) (s : Storage) : Prop :=
  ∀ key object, EvidenceKey key → s.objects.get? key = some object →
    ∃ f ∈ s.fetches, f.descriptor.id = objectName key ∧ f.Fits digest object

/-- Objects stay, and so does the record of the fetches. -/
structure Storage.Later (s s' : Storage) : Prop where
  objects : ∀ key object, s.objects.get? key = some object → s'.objects.get? key = some object
  fetches : ∀ f ∈ s.fetches, f ∈ s'.fetches

theorem Storage.Later.refl (s : Storage) : s.Later s := ⟨fun _ _ h => h, fun _ h => h⟩

theorem Storage.Later.trans {t : Storage} (h : s.Later s') (h' : s'.Later t) : s.Later t :=
  ⟨fun key object ho => h'.objects key object (h.objects key object ho), fun f hf => h'.fetches f (h.fetches f hf)⟩

/-- A `put` under the key of evidence carries what was fetched for it. -/
def Query.Guard (digest : List UInt8 → JsString) (s : Storage) : Query → Prop
  | put key bytes contentType customMetadata => ∃ f ∈ s.fetches, f.descriptor.id = objectName key ∧
      f.Fits digest ⟨bytes, contentType, customMetadata⟩
  | _ => True

theorem Storage.Sound.serve (hs : s.Sound digest) (c : Choice) {q : Query} (hq : q.Guard digest s) :
    (s.serve digest c q).2.Sound digest ∧ s.Later (s.serve digest c q).2 := by
  cases q with
  | head key => exact ⟨hs, .refl s⟩
  | fetch remoteJobId descriptor =>
    refine ⟨?_, fun _ _ h => h, fun f hf => List.mem_append_left _ hf⟩
    intro key object hkey hobject
    obtain ⟨f, hf, hfits⟩ := hs key object hkey hobject
    exact ⟨f, List.mem_append_left _ hf, hfits⟩
  | put key bytes contentType customMetadata =>
    cases hthere : s.objects.get? key with
    | some object =>
      have hsame : (s.serve digest c (.put key bytes contentType customMetadata)).2 = s := by
        simp only [Storage.serve, hthere]
      rw [hsame]
      exact ⟨hs, .refl s⟩
    | none =>
      have hset : (s.serve digest c (.put key bytes contentType customMetadata)).2 =
          ⟨s.objects.set key ⟨bytes, contentType, customMetadata⟩, s.fetches⟩ := by
        simp only [Storage.serve, hthere]
      rw [hset]
      refine ⟨?_, ?_, fun _ hf => hf⟩
      · intro k object hk hobject
        rw [Dict.get?_set] at hobject
        split at hobject
        · next hsame =>
          obtain rfl := Option.some.inj hobject
          rw [hsame]
          exact hq
        · exact hs k object hk hobject
      · intro k object hobject
        have hne : k ≠ key := by
          rintro rfl
          rw [hthere] at hobject
          cases hobject
        rw [Dict.get?_set_ne _ _ hne]
        exact hobject

/-- What the runs rely on and keep to. -/
def discipline (digest : List UInt8 → JsString) : Discipline Query Query.Answer Storage where
  inv := Storage.Sound digest
  le := Storage.Later
  answers s q a s' := ∃ c, s.perform digest c q = (a, s')
  guard := Query.Guard digest
  refl := .refl
  trans := .trans
  step := by
    intro s q a s' hs hq ⟨c, hc⟩
    have hs' : s' = (s.perform digest c q).2 := by rw [hc]
    subst hs'
    obtain ⟨hsound, hlater⟩ := hs.serve c hq
    unfold Storage.perform
    cases c.fault with
    | none => exact ⟨hsound, hlater⟩
    | some f =>
      cases f with
      | before => exact ⟨hs, .refl s⟩
      | after => exact ⟨hsound, hlater⟩

open Discipline (does_pure does_raise does_bind does_ite does_query)

/-- From here a run keeps to the discipline, and what it returns satisfies `post`. -/
abbrev Does (digest : List UInt8 → JsString) {α : Type} (m : Method α) (post : α → Storage → Prop) (s : Storage) :
    Prop := (discipline digest).Does m post s

/-- A request that is answered was served. -/
theorem does_request {q : Query} {post : q.Reply → Storage → Prop} (hs : s.Sound digest)
    (hq : ∀ s', s'.Sound digest → s.Later s' → q.Guard digest s')
    (h : ∀ (s' : Storage) (c : Choice) (s₃ : Storage), s'.Sound digest → s.Later s' →
      s'.Later (s'.serve digest c q).2 → (s'.serve digest c q).2.Later s₃ → post (s'.serve digest c q).1 s₃) : Does digest (request q) post s := by
  apply does_bind hs (M := fun answer s' => ∀ reply, answer = some reply → post reply s' ∧
    ∀ s₃, s'.Later s₃ → post reply s₃)
  · apply does_query hs hq
    intro s' a s'' hs' hle ⟨c, hc⟩ s₃ _ _ hle₃ reply hreply
    subst hreply
    unfold Storage.perform at hc
    split at hc
    · obtain ⟨ha, rfl⟩ := Prod.mk.inj hc
      obtain rfl := Option.some.inj ha
      have hlater := (hs'.serve c (hq s' hs' hle)).2
      exact ⟨h s' c s₃ hs' hle hlater hle₃, fun s₄ h₄ => h s' c s₄ hs' hle hlater (hle₃.trans h₄)⟩
    · cases (Prod.mk.inj hc).1
    · cases (Prod.mk.inj hc).1
  · intro answer s' hs' _ hanswer
    cases answer with
    | none => exact does_raise
    | some reply => exact does_pure hs' fun s₃ _ h₃ => (hanswer reply rfl).2 s₃ h₃

/-- The descriptor has an object of its size and digest in the bucket. -/
def Backed (digest : List UInt8 → JsString) (input : Input) (descriptor : CoreEvidence) (s : Storage) : Prop :=
  ∃ key object, engineeringObjectKey input.ownerScope input.jobId .evidence descriptor.id = .ok key ∧
    s.objects.get? key = some object ∧ object.size = descriptor.sizeBytes ∧
    object.sha256 = some descriptor.sha256 ∧ digest object.bytes = descriptor.sha256

theorem Backed.later (h : Backed digest input descriptor s) (hlater : s.Later s') :
    Backed digest input descriptor s' := by
  obtain ⟨key, object, hkey, hobject, hvalues⟩ := h
  exact ⟨key, object, hkey, hlater.objects key object hobject, hvalues⟩

theorem matches_some {object : StoredObject} (h : immutableEvidenceMatches (some object) descriptor = true) :
    object.size = descriptor.sizeBytes ∧ object.sha256 = some descriptor.sha256 := by
  unfold immutableEvidenceMatches at h
  simp only [Option.any_some, Bool.and_eq_true, decide_eq_true_eq] at h
  exact ⟨h.1.1.1, h.2⟩

/-- What is found under the key and matches the descriptor backs it, whoever stored it. -/
theorem Storage.Sound.backed {object : StoredObject} (hs : s.Sound digest)
    (hkey : engineeringObjectKey input.ownerScope input.jobId .evidence descriptor.id = .ok key)
    (hobject : s.objects.get? key = some object)
    (hmatches : immutableEvidenceMatches (some object) descriptor = true) :
    Backed digest input descriptor s := by
  obtain ⟨hsize, hsha⟩ := matches_some hmatches
  obtain ⟨f, _, _, hfits⟩ := hs key object ⟨_, _, _, hkey⟩ hobject
  have hsame : f.descriptor.sha256 = descriptor.sha256 :=
    Option.some.inj (hfits.recorded.symm.trans hsha)
  exact ⟨key, object, hkey, hobject, hsize, hsha, hfits.digested.trans hsame⟩

theorem does_head (hs : s.Sound digest) :
    Does digest (head key) (fun found s' => ∀ object, found = some object → s'.objects.get? key = some object) s := by
  apply does_request (q := .head key) hs (fun _ _ _ => trivial)
  intro s' c s₃ _ _ _ hlater object hobject
  exact hlater.objects key object hobject

/-- What a matching object leaves. -/
theorem does_matching {object : StoredObject} (hs : s.Sound digest)
    (hkey : engineeringObjectKey input.ownerScope input.jobId .evidence descriptor.id = .ok key)
    (hobject : s.objects.get? key = some object) :
    Does digest (if immutableEvidenceMatches (some object) descriptor = false then Act.raise .integrity
      else pure object) (fun o s' => o.size = descriptor.sizeBytes ∧ Backed digest input descriptor s') s := by
  apply does_ite (fun _ => does_raise)
  intro hmatches
  rw [Bool.not_eq_false] at hmatches
  have hbacked := hs.backed hkey hobject hmatches
  exact does_pure hs fun s' _ hle => ⟨(matches_some hmatches).1, hbacked.later hle⟩

theorem does_raced {e : MirrorError} (hs : s.Sound digest)
    (hkey : engineeringObjectKey input.ownerScope input.jobId .evidence descriptor.id = .ok key) :
    Does digest (raced key descriptor e)
      (fun o s' => o.size = descriptor.sizeBytes ∧ Backed digest input descriptor s') s := by
  cases e with
  | immutableObjectConflict =>
    apply does_bind hs (does_head hs)
    intro found s₁ hs₁ _ hfound
    cases found with
    | none => exact does_raise
    | some object => exact does_matching hs₁ hkey (hfound object rfl)
  | _ => exact does_raise

theorem verified_iff {f : FetchedEvidence} (h : f.verified descriptor = true) :
    f.sizeBytes = descriptor.sizeBytes ∧ (f.bytes.length : Int) = descriptor.sizeBytes ∧
      f.sha256 = descriptor.sha256 ∧ f.mediaType = descriptor.mediaType := by
  unfold FetchedEvidence.verified at h
  simp only [Bool.and_eq_true, decide_eq_true_eq] at h
  obtain ⟨⟨⟨⟨⟨⟨_, hsize⟩, _⟩, _⟩, hlength⟩, hsha⟩, htype⟩ := h
  exact ⟨hsize, hlength.trans hsize, hsha, htype⟩

/-- What a fetch brings is on record with its digest. -/
theorem does_fetch {remoteJobId : JsString} (hs : s.Sound digest) :
    Does digest (fetchEvidence remoteJobId descriptor) (fun fetched s' =>
      ⟨remoteJobId, descriptor, fetched⟩ ∈ s'.fetches ∧ fetched.sha256 = digest fetched.bytes) s := by
  apply does_request (q := .fetch remoteJobId descriptor) hs (fun _ _ _ => trivial)
  intro s' c s₃ _ _ _ hlater
  exact ⟨hlater.fetches _ (List.mem_append_right _ (List.mem_singleton_self _)), rfl⟩

theorem evidenceMetadata_sha256 (jobId : JsString) (descriptor : CoreEvidence) :
    (evidenceMetadata jobId descriptor).get? (JsString.ofText "sha256") = some descriptor.sha256 := by
  unfold evidenceMetadata
  rw [Dict.get?_set_ne _ _ (by decide), Dict.get?_set_ne _ _ (by decide), Dict.get?_set_self]

/-- What was fetched and verified for a descriptor fits it. -/
theorem fits_verified {remoteJobId jobId : JsString} {fetched : FetchedEvidence}
    (hverified : fetched.verified descriptor = true) (hdigest : fetched.sha256 = digest fetched.bytes) :
    Fetch.Fits digest ⟨remoteJobId, descriptor, fetched⟩
      ⟨fetched.bytes, descriptor.mediaType, evidenceMetadata jobId descriptor⟩ := by
  obtain ⟨_, hlength, hsha, htype⟩ := verified_iff hverified
  exact ⟨rfl, hlength, hdigest.symm.trans hsha, htype, rfl, evidenceMetadata_sha256 jobId descriptor⟩

/-- What a `put` of verified evidence returns is the object now under the key. -/
theorem does_put {jobId : JsString} {f : Fetch} (hs : s.Sound digest)
    (hkey : engineeringObjectKey input.ownerScope input.jobId .evidence descriptor.id = .ok key)
    (hf : f ∈ s.fetches) (hdescriptor : f.descriptor = descriptor)
    (hfits : f.Fits digest ⟨f.fetched.bytes, descriptor.mediaType, evidenceMetadata jobId descriptor⟩) :
    Does digest (putImmutableObject key f.fetched.bytes descriptor.mediaType (evidenceMetadata jobId descriptor))
      (fun o s' => o.size = descriptor.sizeBytes ∧ Backed digest input descriptor s') s := by
  apply does_bind hs (M := fun (found : Option StoredObject) s' => ∀ o, found = some o → ∀ s'', s'.Later s'' →
    o.size = descriptor.sizeBytes ∧ Backed digest input descriptor s'')
  · apply does_request (q := .put key f.fetched.bytes descriptor.mediaType (evidenceMetadata jobId descriptor)) hs
    · intro s' _ hle
      exact ⟨f, hle.fetches f hf, by rw [hdescriptor, objectName_key hkey], hfits⟩
    · intro s' c s₃ _ _ _ hlater o ho s₄ hlater'
      have hafter := hlater.trans hlater'
      cases hthere : s'.objects.get? key with
      | some object =>
        simp only [Storage.serve, hthere] at ho
        cases ho
      | none =>
        simp only [Storage.serve, hthere] at ho hafter
        obtain rfl := Option.some.inj ho
        have hstored := hafter.objects key _ (Dict.get?_set_self _ _ _)
        rw [← hdescriptor]
        refine ⟨hfits.size, key, _, hdescriptor ▸ hkey, hstored, hfits.size, ?_, ?_⟩
        · exact hfits.recorded
        · exact hfits.digested
  · intro found s₁ hs₁ _ hfound
    cases found with
    | none => exact does_raise
    | some o => exact does_pure hs₁ fun s₂ _ hle => hfound o rfl s₂ hle

/-- One turn returns its descriptor, backed by an object. -/
theorem does_mirrorOne (hs : s.Sound digest) :
    Does digest (mirrorOne input descriptor) (fun d s' => d = descriptor ∧ Backed digest input descriptor s') s := by
  unfold mirrorOne
  cases hkey : engineeringObjectKey input.ownerScope input.jobId .evidence descriptor.id with
  | error e => exact does_raise
  | ok key =>
    apply does_bind hs (does_head hs)
    intro existing s₁ hs₁ _ hexisting
    cases existing with
    | some object =>
      apply does_ite (fun _ => does_raise)
      intro hmatches
      rw [Bool.not_eq_false] at hmatches
      have hbacked := hs₁.backed hkey (hexisting object rfl) hmatches
      apply does_pure hs₁
      intro s₂ _ hle
      exact ⟨by rw [(matches_some hmatches).1], hbacked.later hle⟩
    | none =>
      apply does_bind hs₁ (does_fetch hs₁)
      intro fetched s₂ hs₂ _ hfetched
      apply does_ite (fun _ => does_raise)
      intro hverified
      rw [Bool.not_eq_false] at hverified
      have hfits : Fetch.Fits digest ⟨input.remoteJobId, descriptor, fetched⟩
          ⟨fetched.bytes, descriptor.mediaType, evidenceMetadata input.jobId descriptor⟩ :=
        fits_verified hverified hfetched.2
      have hput := does_put hs₂ hkey hfetched.1 rfl hfits
      apply does_bind hs₂ (Discipline.does_handle hs₂ hput fun e s₃ hs₃ _ => does_raced hs₃ hkey)
      intro stored s₃ hs₃ _ hstored
      apply does_ite (fun _ => does_raise)
      intro _
      apply does_pure hs₃
      intro s₄ _ hle
      exact ⟨by rw [(verified_iff hverified).1], hstored.2.later hle⟩

/-- The loop returns what it was given after what it had, all of it backed. -/
theorem does_mirrorEach {rest : List CoreEvidence} : ∀ {mirrored : List CoreEvidence} {s : Storage},
    s.Sound digest → Does digest (mirrorEach input rest mirrored)
      (fun l s' => l = mirrored ++ rest ∧ ∀ d ∈ rest, Backed digest input d s') s := by
  induction rest with
  | nil =>
    intro mirrored s hs
    exact does_pure hs fun _ _ _ => ⟨(List.append_nil _).symm, fun _ hd => absurd hd List.not_mem_nil⟩
  | cons descriptor rest ih =>
    intro mirrored s hs
    have hone : Does digest (mirrorOne input descriptor) (fun d s' => ∀ s'', s'.Later s'' →
        d = descriptor ∧ Backed digest input descriptor s'') s :=
      (does_mirrorOne hs).weaken fun d s' hd s'' hle => ⟨hd.1, hd.2.later hle⟩
    apply does_bind hs hone
    intro item s₁ hs₁ _ hitem
    obtain ⟨rfl, _⟩ := hitem s₁ (.refl s₁)
    apply (Discipline.does_since hs₁ (ih hs₁)).weaken
    intro l s₂ ⟨hle, hl, hbacked⟩
    refine ⟨?_, ?_⟩
    · rw [hl, List.append_assoc, List.singleton_append]
    · intro d hd
      rcases List.mem_cons.mp hd with rfl | hd
      · exact (hitem s₂ hle).2
      · exact hbacked d hd

end

/-! ## Any runs -/

/-- What a run that returned has mirrored. -/
def Mirrored (digest : List UInt8 → JsString) (outcome : Outcome) (s : Storage) : Prop :=
  ∀ list, outcome.2 = .ok list → list = outcome.1.evidence ∧ ∀ d ∈ list, Backed digest outcome.1 d s

theorem works_fulfils (digest : List UInt8 → JsString) :
    (works digest).Fulfils (discipline digest).protocol (Storage.Sound digest) (Mirrored digest) where
  keeps := (discipline digest).keeps
  stable hs hr := (hr hs).1
  answers _ c _ _ := ⟨c, rfl⟩
  outside e := e.elim
  program input s hs := by
    have hmirror : Does digest (mirrorCoreEvidence input)
        (fun l s' => l = input.evidence ∧ ∀ d ∈ input.evidence, Backed digest input d s') s := does_mirrorEach hs
    apply Prog.Safe.bind ?_ (hmirror ())
    intro r s' hr s'' hrely list hlist
    obtain ⟨r, l⟩ := r
    cases hlist
    obtain ⟨_, hlist, hbacked⟩ := hr s'' hrely
    rw [hlist]
    exact ⟨rfl, hbacked⟩

/-- No evidence is in the bucket yet. -/
structure Storage.Fresh (s : Storage) : Prop where
  objects : ∀ key, EvidenceKey key → s.objects.get? key = none
  fetches : s.fetches = []

/-- However runs of `mirrorCoreEvidence` interleave, fail and are repeated: what is stored under the
key of evidence was fetched for a descriptor with its id and fits it, no object is replaced, a run
that returns gives back its descriptors, each backed by an object of its size and digest, and so two
of them with the same descriptors return the same. -/
theorem evidence_mirrored {digest : List UInt8 → JsString} {start : Storage} {events later : List Event}
    {w w' : System} (hstart : start.Fresh) (h : Run (System.Step digest) { state := start } events w)
    (h' : Run (System.Step digest) w later w') :
    (∀ owner job id key object, engineeringObjectKey owner job .evidence id = .ok key →
      w.state.objects.get? key = some object →
      ∃ f ∈ w.state.fetches, f.descriptor.id = id ∧ f.Fits digest object) ∧
    (∀ key object, w.state.objects.get? key = some object → w'.state.objects.get? key = some object) ∧
    (∀ n input list, w.runs.get? n = some (.done (input, .ok list)) →
      list = input.evidence ∧ ∀ d ∈ list, Backed digest input d w.state) ∧
    ∀ n m input input' list list', w.runs.get? n = some (.done (input, .ok list)) →
      w.runs.get? m = some (.done (input', .ok list')) → input.evidence = input'.evidence → list = list' := by
  have hsound : start.Sound digest := by
    intro key object hkey hobject
    rw [hstart.objects key hkey] at hobject
    cases hobject
  obtain ⟨hrely, hsafe⟩ := Pool.run_safeTo (works_fulfils digest) h hsound (Pool.safeTo_start _)
  have hreached := (hrely hsound).1
  have hlater := (((Pool.run_safeTo (works_fulfils digest) h' hreached hsafe).1) hreached).2
  have hreturned : ∀ n input list, w.runs.get? n = some (.done (input, .ok list)) →
      list = input.evidence ∧ ∀ d ∈ list, Backed digest input d w.state := by
    intro n input list hn
    exact hsafe.returned hn list rfl
  refine ⟨?_, hlater.objects, hreturned, ?_⟩
  · intro owner job id key object hkey hobject
    rw [← objectName_key hkey]
    exact hreached key object ⟨owner, job, id, hkey⟩ hobject
  · intro n m input input' list list' hn hm hsame
    rw [(hreturned n input list hn).1, (hreturned m input' list' hm).1, hsame]

/-- The digest of no bytes. -/
def sampleDigest : JsString :=
  JsString.ofText "e3b0c44298fc1c149afbf4c8996fb92427ae41e4649b934ca495991b7852b855"

/-- An empty log. -/
def sampleDescriptor : CoreEvidence where
  id := JsString.ofText "evidence:22222222222222222222222222222222"
  category := .log
  filename := JsString.ofText "run.log"
  mediaType := JsString.ofText "text/plain"
  sizeBytes := 0
  sha256 := sampleDigest
  createdAt := JsString.ofText "2026-08-13T12:00:00.000Z"
  corePath := JsString.ofText "/v1/jobs/remote-job/evidence/run.log"

def sampleInput : Input where
  ownerScope := JsString.ofText "ownerhash"
  jobId := JsString.ofText "job:11111111111111111111111111111111"
  remoteJobId := JsString.ofText "remote-job"
  evidence := [sampleDescriptor]

/-- Two runs find nothing, and both fetch and put. -/
def sampleEvents : List Event :=
  let choice : Choice := { mediaType := JsString.ofText "text/plain" }
  [.start 0 sampleInput, .start 1 sampleInput, .resume 0 {}, .resume 1 {}, .resume 0 choice, .resume 1 choice,
    .resume 0 {}, .resume 1 {}, .resume 1 {}]

/-- What a run has come to. -/
def outcome (w : System) (n : Nat) : Option Outcome :=
  match w.runs.get? n with
  | some (.done r) => some r
  | _ => none

theorem outcome_done {w : System} {n : Nat} {r : Outcome} (h : outcome w n = some r) :
    w.runs.get? n = some (.done r) := by
  unfold outcome at h
  split at h
  · next r' hr =>
    rw [hr, Option.some.inj h]
  · cases h

theorem sampleEvents_returned :
    (Pool.run? (works fun _ => sampleDigest) ({ state := ⟨∅, []⟩ } : System) sampleEvents).map
      (fun w => outcome w 1) = some (some (sampleInput, .ok [sampleDescriptor])) := by
  decide +kernel

/-- The run that came second returns its descriptor too, backed by what the first one stored. -/
theorem evidence_mirrored_sample : ∃ w : System,
    Run (System.Step fun _ => sampleDigest) { state := ⟨∅, []⟩ } sampleEvents w ∧
    outcome w 1 = some (sampleInput, .ok [sampleDescriptor]) ∧
    Backed (fun _ => sampleDigest) sampleInput sampleDescriptor w.state := by
  have hfresh : Storage.Fresh ⟨∅, []⟩ := ⟨fun _ _ => rfl, rfl⟩
  obtain ⟨w, hw, houtcome⟩ := Option.map_eq_some_iff.mp sampleEvents_returned
  have hrun : Run (System.Step fun _ => sampleDigest) { state := ⟨∅, []⟩ } sampleEvents w := Pool.run?_run hw
  obtain ⟨_, _, hreturned, _⟩ := evidence_mirrored hfresh hrun (.nil w)
  exact ⟨w, hrun, houtcome, (hreturned 1 _ _ (outcome_done houtcome)).2 _ (List.mem_singleton_self _)⟩

end LilTweak.Worker.EvidenceMirror
