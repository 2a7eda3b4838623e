import LilTweak.Evidence.Patch
import LilTweak.Lib.Framing
import Mathlib

/-!
# The stream a source digest is made of

`capture_workspace` hashes the files of a tree in the order of their paths, the path and the bytes of
each behind their lengths. The stream tells the tree: which files it has, and with which bytes, whatever
was captured in memory and whatever was staged, and in whatever order the files were visited.
-/

namespace LilTweak.Evidence

open LilTweak.Lib

/-- What the digest of a tree fails with. -/
inductive StreamFault
  | unreadable
  | snapshotChanged
  | lengthOverflow
  deriving DecidableEq

variable (sha256 : Sha256)

/-- The bytes of a file, read back where they were staged. -/
def readValue : SnapshotValue → Except StreamFault Bytes
  | .inline data => .ok data
  | .staged _ none => .error .unreadable
  | .staged data (some found) =>
    if found.length ≠ data.length ∨ sha256 found ≠ sha256 data then .error .snapshotChanged else .ok found

/-- `n.to_bytes(8, "big")`. -/
def toBytes8 (n : Nat) : Except StreamFault Bytes := if n < 2 ^ 64 then .ok (bigEndian8 n) else .error .lengthOverflow

/-- One round of the loop over the files. -/
def digestFile (stream : Bytes) (file : String × SnapshotValue) : Except StreamFault Bytes := do
  let data ← readValue sha256 file.2
  let encodedPath := encodeUtf8 file.1.toList
  let pathLength ← toBytes8 encodedPath.length
  let dataLength ← toBytes8 data.length
  .ok (stream ++ pathLength ++ encodedPath ++ dataLength ++ data)

/-- What `capture_workspace` hashes. -/
def sourceStream (files : Dict String SnapshotValue) : Except StreamFault Bytes :=
  files.sorted.foldlM (digestFile sha256) (encodeUtf8 "lil-tweak-source-v1\x00".toList)

/-- The bytes a file has, in memory or staged. -/
def SnapshotValue.held : SnapshotValue → Option Bytes
  | .inline data => some data
  | .staged _ onDisk => onDisk

/-- The bytes at a path. -/
def contentAt (files : Dict String SnapshotValue) (path : String) : Option Bytes := (files.get? path).bind SnapshotValue.held

variable {sha256}

/-! ## One file -/

/-- Numbers agree from a byte on when they agree in it and from the next one on. -/
theorem div_eq_of_byte {m n : Nat} (k : Nat) (hbyte : m / k % 256 = n / k % 256) (hrest : m / (k * 256) = n / (k * 256)) :
    m / k = n / k := by
  rw [← Nat.div_div_eq_div_mul, ← Nat.div_div_eq_div_mul] at hrest
  rw [← Nat.div_add_mod (m / k) 256, ← Nat.div_add_mod (n / k) 256, hrest, hbyte]

theorem bigEndian8_tells : TellsLengths bigEndian8 8 (2 ^ 64) where
  width _ := rfl
  injective m hm n hn h := by
    simp only [bigEndian8, List.map_cons, List.map_nil, List.cons.injEq, and_true] at h
    obtain ⟨h0, h1, h2, h3, h4, h5, h6, h7⟩ := h
    have hbyte : ∀ a b : Nat, UInt8.ofNat a = UInt8.ofNat b → a % 256 = b % 256 := by
      intro a b hab
      have hnat := congrArg UInt8.toNat hab
      simpa using hnat
    have h56 : m / 2 ^ 56 = n / 2 ^ 56 := by
      have htop := hbyte _ _ h0
      omega
    have h48 : m / 2 ^ 48 = n / 2 ^ 48 := div_eq_of_byte _ (hbyte _ _ h1) h56
    have h40 : m / 2 ^ 40 = n / 2 ^ 40 := div_eq_of_byte _ (hbyte _ _ h2) h48
    have h32 : m / 2 ^ 32 = n / 2 ^ 32 := div_eq_of_byte _ (hbyte _ _ h3) h40
    have h24 : m / 2 ^ 24 = n / 2 ^ 24 := div_eq_of_byte _ (hbyte _ _ h4) h32
    have h16 : m / 2 ^ 16 = n / 2 ^ 16 := div_eq_of_byte _ (hbyte _ _ h5) h24
    have h8 : m / 2 ^ 8 = n / 2 ^ 8 := div_eq_of_byte _ (hbyte _ _ h6) h16
    have hall : m / 2 ^ 0 = n / 2 ^ 0 := div_eq_of_byte _ (hbyte _ _ h7) h8
    rwa [pow_zero, Nat.div_one, Nat.div_one] at hall

theorem toBytes8_ok {n : Nat} {bytes : Bytes} (h : toBytes8 n = .ok bytes) : n < 2 ^ 64 ∧ bytes = bigEndian8 n := by
  unfold toBytes8 at h
  split at h
  · next hlt => exact ⟨hlt, (Except.ok.inj h).symm⟩
  · cases h

theorem readValue_ok {v : SnapshotValue} {data : Bytes} (h : readValue sha256 v = .ok data) : v.held = some data := by
  unfold readValue at h
  split at h
  · exact congrArg some (Except.ok.inj h)
  · cases h
  · split at h
    · cases h
    · exact congrArg some (Except.ok.inj h)

/-- A path and its bytes, framed. -/
def framedFile (file : Bytes × Bytes) : Bytes := framed bigEndian8 file.1 ++ framed bigEndian8 file.2

theorem digestFile_ok {stream stream' : Bytes} {file : String × SnapshotValue}
    (h : digestFile sha256 stream file = .ok stream') : ∃ data, file.2.held = some data ∧
      (encodeUtf8 file.1.toList).length < 2 ^ 64 ∧ data.length < 2 ^ 64 ∧
      stream' = stream ++ framedFile (encodeUtf8 file.1.toList, data) := by
  unfold digestFile at h
  cases hread : readValue sha256 file.2 with
  | error fault =>
    rw [hread] at h
    cases h
  | ok data =>
    cases hpath : toBytes8 (encodeUtf8 file.1.toList).length with
    | error fault =>
      rw [hread] at h
      simp only [bind, Except.bind, hpath] at h
      cases h
    | ok pathLength =>
      cases hdata : toBytes8 data.length with
      | error fault =>
        rw [hread] at h
        simp only [bind, Except.bind, hpath, hdata] at h
        cases h
      | ok dataLength =>
        rw [hread] at h
        simp only [bind, Except.bind, hpath, hdata] at h
        obtain ⟨hpathShort, rfl⟩ := toBytes8_ok hpath
        obtain ⟨hdataShort, rfl⟩ := toBytes8_ok hdata
        refine ⟨data, readValue_ok hread, hpathShort, hdataShort, ?_⟩
        rw [← Except.ok.inj h]
        simp only [framedFile, framed, List.append_assoc]

/-! ## All files -/

/-- The files as the loop has read them. -/
structure Streamed (files : List (String × SnapshotValue)) (read : List (String × Bytes)) : Prop where
  held : files.map (fun f => (f.1, f.2.held)) = read.map fun p => (p.1, some p.2)
  short : ∀ p ∈ read, (encodeUtf8 p.1.toList).length < 2 ^ 64 ∧ p.2.length < 2 ^ 64

theorem foldlM_digestFile {files : List (String × SnapshotValue)} {stream stream' : Bytes}
    (h : files.foldlM (digestFile sha256) stream = .ok stream') : ∃ read, Streamed files read ∧
      stream' = stream ++ read.flatMap fun p => framedFile (encodeUtf8 p.1.toList, p.2) := by
  induction files generalizing stream with
  | nil =>
    rw [List.foldlM_nil] at h
    refine ⟨[], ⟨rfl, fun _ hp => absurd hp List.not_mem_nil⟩, ?_⟩
    rw [List.flatMap_nil, List.append_nil]
    exact (Except.ok.inj h).symm
  | cons file files ih =>
    rw [List.foldlM_cons] at h
    cases hfile : digestFile sha256 stream file with
    | error fault =>
      rw [hfile] at h
      cases h
    | ok next =>
      rw [hfile] at h
      obtain ⟨data, hheld, hpath, hdata, rfl⟩ := digestFile_ok hfile
      obtain ⟨read, hread, rfl⟩ := ih h
      refine ⟨(file.1, data) :: read, ⟨?_, List.forall_mem_cons.mpr ⟨⟨hpath, hdata⟩, hread.short⟩⟩, ?_⟩
      · rw [List.map_cons, List.map_cons, hread.held, hheld]
      · rw [List.flatMap_cons, List.append_assoc]

/-- The stream tells what the loop has read. -/
theorem streamed_injective {files files' : List (String × SnapshotValue)} {read read' : List (String × Bytes)}
    (h : Streamed files read) (h' : Streamed files' read')
    (heq : (read.flatMap fun p => framedFile (encodeUtf8 p.1.toList, p.2)) =
      read'.flatMap fun p => framedFile (encodeUtf8 p.1.toList, p.2)) : read = read' := by
  have hpairs : read.map (fun p => (encodeUtf8 p.1.toList, p.2)) = read'.map fun p => (encodeUtf8 p.1.toList, p.2) := by
    apply framedPairs_injective bigEndian8_tells (by decide)
    · intro p hp
      obtain ⟨q, hq, rfl⟩ := List.mem_map.mp hp
      exact h.short q hq
    · intro p hp
      obtain ⟨q, hq, rfl⟩ := List.mem_map.mp hp
      exact h'.short q hq
    · rw [List.flatMap_map, List.flatMap_map]
      exact heq
  refine List.map_injective_iff.mpr ?_ hpairs
  intro p q hpq
  obtain ⟨hname, hdata⟩ := Prod.mk.inj hpq
  exact Prod.ext (String.toList_inj.mp (encodeUtf8_injective hname)) hdata

theorem sorted_held (files : Dict String SnapshotValue) :
    (files.mapValues SnapshotValue.held).sorted = files.sorted.map fun f => (f.1, f.2.held) :=
  files.sorted_mapValues SnapshotValue.held

/-- A path without a file has no bytes, and a file that was read has some. -/
theorem contentAt_eq_iff {files files' : Dict String SnapshotValue} {read read' : List (String × Bytes)}
    (h : Streamed files.sorted read) (h' : Streamed files'.sorted read') :
    (∀ path, contentAt files path = contentAt files' path) ↔ read = read' := by
  have hcontent : ∀ (files : Dict String SnapshotValue) (read : List (String × Bytes)), Streamed files.sorted read →
      ∀ path, (files.mapValues SnapshotValue.held).get? path = (contentAt files path).map some := by
    intro files read hread path
    rw [Dict.get?_mapValues, contentAt]
    cases hfile : files.get? path with
    | none => rfl
    | some v =>
      have hmem : (path, v) ∈ files.sorted := (List.mem_insertionSort _).mpr ((files.mem_entries_iff path v).mpr hfile)
      have hheld : (path, v.held) ∈ read.map fun p => (p.1, some p.2) :=
        hread.held ▸ List.mem_map.mpr ⟨_, hmem, rfl⟩
      obtain ⟨p, -, hp⟩ := List.mem_map.mp hheld
      have hsome : v.held = some p.2 := (congrArg Prod.snd hp).symm
      rw [Option.map_some, Option.bind_some, hsome, Option.map_some]
  constructor
  · intro hsame
    have hsorted : (files.mapValues SnapshotValue.held).sorted = (files'.mapValues SnapshotValue.held).sorted :=
      Dict.sorted_eq_iff.mpr fun path => by
        rw [hcontent files read h path, hcontent files' read' h' path, hsame path]
    rw [sorted_held, sorted_held, h.held, h'.held] at hsorted
    refine List.map_injective_iff.mpr ?_ hsorted
    intro p q hpq
    obtain ⟨hname, hdata⟩ := Prod.mk.inj hpq
    exact Prod.ext hname (Option.some.inj hdata)
  · intro hsame path
    have hsorted : (files.mapValues SnapshotValue.held).sorted = (files'.mapValues SnapshotValue.held).sorted := by
      rw [sorted_held, sorted_held, h.held, h'.held, hsame]
    have hget := Dict.sorted_eq_iff.mp hsorted path
    rw [hcontent files read h path, hcontent files' read' h' path] at hget
    exact Option.map_injective (fun _ _ => Option.some.inj) hget

/-- A file whose staged copy is what was captured, with lengths that have a mark. -/
structure Intact (file : String × SnapshotValue) : Prop where
  held : file.2.held = some file.2.data
  path : (encodeUtf8 file.1.toList).length < 2 ^ 64
  data : file.2.data.length < 2 ^ 64

theorem readValue_intact {v : SnapshotValue} (h : v.held = some v.data) : readValue sha256 v = .ok v.data := by
  cases v with
  | inline data => rfl
  | staged data onDisk =>
    obtain rfl : onDisk = some data := h
    have hsame : ¬(data.length ≠ data.length ∨ sha256 data ≠ sha256 data) := by
      intro hchanged
      rcases hchanged with hchanged | hchanged
      · exact hchanged rfl
      · exact hchanged rfl
    show (if _ then _ else _) = _
    rw [if_neg hsame]
    rfl

/-- A tree of intact files has a stream. -/
theorem foldlM_intact {files : List (String × SnapshotValue)} (h : ∀ f ∈ files, Intact f) (stream : Bytes) :
    files.foldlM (digestFile sha256) stream =
      .ok (stream ++ files.flatMap fun f => framedFile (encodeUtf8 f.1.toList, f.2.data)) := by
  induction files generalizing stream with
  | nil =>
    rw [List.foldlM_nil, List.flatMap_nil, List.append_nil]
    rfl
  | cons file files ih =>
    obtain ⟨hfile, hfiles⟩ := List.forall_mem_cons.mp h
    have hdigest : digestFile sha256 stream file =
        .ok (stream ++ framedFile (encodeUtf8 file.1.toList, file.2.data)) := by
      unfold digestFile
      rw [readValue_intact hfile.held]
      simp only [bind, Except.bind, toBytes8, if_pos hfile.path, if_pos hfile.data, framedFile, framed, List.append_assoc]
    rw [List.foldlM_cons, hdigest, List.flatMap_cons, ← List.append_assoc]
    exact ih hfiles _

/-- The source digest of a snapshot of intact files is the hash of their stream. -/
theorem sourceDigest_eq (s : WorkspaceSnapshot) (h : ∀ f ∈ s.files.sorted, Intact f) :
    ∃ stream, sourceStream sha256 s.files = .ok stream ∧ s.sourceDigest sha256 = sha256 stream := by
  refine ⟨_, foldlM_intact h _, ?_⟩
  have hkeys : s.files.keys.insertionSort nameBefore = s.files.sorted.map Prod.fst :=
    (List.map_insertionSort (fun a b : String × SnapshotValue => a.1 ≤ b.1) nameBefore Prod.fst s.files.entries
      fun _ _ _ _ => Iff.rfl).symm
  unfold WorkspaceSnapshot.sourceDigest
  rw [hkeys, List.flatMap_map]
  congr 2
  refine List.flatMap_congr fun f hf => ?_
  have hget : s.files.get? f.1 = some f.2 := (s.files.mem_entries_iff f.1 f.2).mp ((List.mem_insertionSort _).mp hf)
  rw [hget]
  simp only [framedFile, framed, List.append_assoc]

/-- Two trees have one stream exactly when they have the same bytes at every path; and one digest, where
their streams do not collide. -/
theorem sourceStream_tells {files files' : Dict String SnapshotValue} {stream stream' : Bytes}
    (h : sourceStream sha256 files = .ok stream) (h' : sourceStream sha256 files' = .ok stream') :
    (stream = stream' ↔ ∀ path, contentAt files path = contentAt files' path) ∧
      ((sha256 stream = sha256 stream' → stream = stream') →
        (sha256 stream = sha256 stream' ↔ ∀ path, contentAt files path = contentAt files' path)) := by
  obtain ⟨read, hread, hstream⟩ := foldlM_digestFile h
  obtain ⟨read', hread', hstream'⟩ := foldlM_digestFile h'
  have htells : stream = stream' ↔ ∀ path, contentAt files path = contentAt files' path := by
    rw [contentAt_eq_iff hread hread', hstream, hstream']
    constructor
    · intro heq
      exact streamed_injective hread hread' (List.append_cancel_left heq)
    · intro heq
      rw [heq]
  refine ⟨htells, fun hcollision => ?_⟩
  rw [← htells]
  exact ⟨hcollision, fun heq => heq ▸ rfl⟩

/-- One tree, visited in two orders, with one of its files staged the second time. -/
theorem sourceStream_tells_twice :
    let files : Dict String SnapshotValue := (Dict.set ∅ "b" (.inline [2])).set "a" (.inline [1])
    let files' : Dict String SnapshotValue := (Dict.set ∅ "a" (.staged [1] (some [1]))).set "b" (.inline [2])
    ∃ stream stream', sourceStream (fun _ => "0") files = .ok stream ∧ sourceStream (fun _ => "0") files' = .ok stream' ∧
      stream = stream' ∧ ∀ path, contentAt files path = contentAt files' path := by
  intro files files'
  obtain ⟨stream, hstream⟩ : ∃ stream, sourceStream (fun _ => "0") files = .ok stream := ⟨_, rfl⟩
  obtain ⟨stream', hstream'⟩ : ∃ stream', sourceStream (fun _ => "0") files' = .ok stream' := ⟨_, rfl⟩
  have hsame : stream = stream' := by
    have hrun : sourceStream (fun _ => "0") files = sourceStream (fun _ => "0") files' := by decide +kernel
    rw [hstream, hstream'] at hrun
    exact Except.ok.inj hrun
  exact ⟨stream, stream', hstream, hstream', hsame, (sourceStream_tells hstream hstream').1.mp hsame⟩

end LilTweak.Evidence
