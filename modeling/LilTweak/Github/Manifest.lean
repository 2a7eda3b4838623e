import LilTweak.Evidence.Readers
import LilTweak.Lib.PyJsonText
import Mathlib

/-!
# The manifest of a runner job

`RunnerManifest.issue` binds a patch to the paths it may write. The paths are those the headers of the
patch name, and a path is checked character by character, and for one beginning: a component of dots,
or the Git directory spelled or placed otherwise, is not looked for.
-/

namespace LilTweak.Github

open LilTweak.Lib LilTweak.Evidence

/-- The messages of a `GitHubRunnerError`. -/
inductive RunnerError
  | invalidRunnerManifest
  | invalidPatchPaths
  | invalidPatchAuthority
  | runnerManifestTooLarge
  deriving DecidableEq

def RunnerError.message : RunnerError → String
  | .invalidRunnerManifest => "invalid runner manifest"
  | .invalidPatchPaths => "invalid patch paths"
  | .invalidPatchAuthority => "invalid patch authority"
  | .runnerManifestTooLarge => "runner manifest too large"

/-! ## The checks -/

def hexDigit (c : Char) : Bool := c.isDigit || (decide ('a' ≤ c) && decide (c ≤ 'f'))

/-- `_HEX_40.fullmatch` and `_HEX_64.fullmatch`. -/
def hexDigits (n : Nat) (s : String) : Bool := s.toList.length == n && s.toList.all hexDigit

/-- `[A-Za-z0-9._-]`. -/
def nameChar (c : Char) : Bool := c.isAlphanum || c ∈ ['.', '_', '-']

/-- `_SAFE_ID.fullmatch`. -/
def safeId (s : String) : Bool :=
  match s.toList with
  | [] => false
  | c :: rest => c.isAlphanum && decide (rest.length ≤ 79) && rest.all nameChar

/-- `_valid_github_repository`. -/
def validGithubRepository (s : String) : Bool :=
  let components := s.toList.splitOn '/'
  components.length == 2 && components.all fun c => c ≠ ['.'] && c ≠ ['.', '.'] && c ≠ [] && c.all nameChar

/-- `_ACTIONS`. -/
def runnerActions : List String := ["inspect_source", "apply_patch", "compile_python", "npm_verify", "git_diff"]

/-- `_MAX_MANIFEST_BYTES`. -/
def maxManifestBytes : Nat := 45000

/-- A `datetime`: whether it has a zone, and its instant in microseconds. -/
structure Moment where
  aware : Bool
  micros : Int
  deriving DecidableEq

/-- The arguments of `RunnerManifest.issue`. -/
structure IssueRequest where
  executionId : String
  repository : String
  sourceCommit : String
  sourceTree : String
  patch : Text
  authorizedPaths : List String
  actions : List String
  issuedAt : Moment
  expiresAt : Moment
  authorityDigest : String

structure RunnerManifest where
  executionId : String
  repository : String
  sourceCommit : String
  sourceTree : String
  patch : Text
  authorizedPaths : List String
  actions : List String
  issuedAt : String
  expiresAt : String
  authorityDigest : String
  manifestDigest : String
  deriving DecidableEq

/-- The first test of `issue`. -/
def IssueRequest.wellFormed (r : IssueRequest) : Bool :=
  safeId r.executionId && validGithubRepository r.repository && hexDigits 40 r.sourceCommit &&
    hexDigits 40 r.sourceTree && hexDigits 64 r.authorityDigest && r.issuedAt.aware && r.expiresAt.aware &&
    decide (r.issuedAt.micros < r.expiresAt.micros) &&
    decide (r.expiresAt.micros - r.issuedAt.micros ≤ 1800 * 1000000) &&
    decide (1 ≤ r.actions.length) && decide (r.actions.length ≤ 5) && decide r.actions.Nodup &&
    r.actions.all (runnerActions.contains ·) && r.actions.head? == some "inspect_source" &&
    r.actions.getLast? == some "git_diff" && decide ((encodeUtf8 r.patch).length ≤ 24000) &&
    decide (r.authorizedPaths.length ≤ 32) && decide r.authorizedPaths.Nodup &&
    r.authorizedPaths.all fun path => runnerPath path.toList

/-- `_canonical`. -/
def canonical (value : PyJson) : Bytes := encodeUtf8 value.sortKeys.text

section
variable (sha256 : Bytes → String) (isoformat : Int → String)

/-- What the digest of a manifest is made of. -/
def IssueRequest.payload (r : IssueRequest) : List (PyStr × PyJson) :=
  let text (s : String) : PyJson := .str (PyStr.ofText s)
  [(PyStr.ofText "schemaVersion", text "lil-tweak-github-runner-manifest-v1"),
    (PyStr.ofText "executionId", text r.executionId), (PyStr.ofText "repository", text r.repository),
    (PyStr.ofText "sourceCommit", text r.sourceCommit), (PyStr.ofText "sourceTree", text r.sourceTree),
    (PyStr.ofText "patch", text (String.ofList r.patch)),
    (PyStr.ofText "authorizedPaths", .arr (r.authorizedPaths.map text)),
    (PyStr.ofText "actions", .arr (r.actions.map text)),
    (PyStr.ofText "issuedAt", text (isoformat r.issuedAt.micros)),
    (PyStr.ofText "expiresAt", text (isoformat r.expiresAt.micros)),
    (PyStr.ofText "authorityDigest", text r.authorityDigest)]

/-- `RunnerManifest.issue`; `isoformat` writes an instant in UTC. -/
def RunnerManifest.issue (r : IssueRequest) : Except RunnerError RunnerManifest :=
  if r.wellFormed = false then .error .invalidRunnerManifest
  else
    match patchPaths r.patch with
    | none => .error .invalidPatchPaths
    | some changed =>
      if r.patch ≠ [] ∧ (changed = [] ∨ ¬(changed ⊆ r.authorizedPaths ∧ r.authorizedPaths ⊆ changed)) then
        .error .invalidPatchPaths
      else if decide (r.patch ≠ []) ≠ r.actions.contains "apply_patch" ∨
          decide (r.patch ≠ []) ≠ decide (r.authorizedPaths ≠ []) then .error .invalidPatchAuthority
      else
        let payload := r.payload isoformat
        let digest := sha256 (canonical (.obj payload))
        if maxManifestBytes < (canonical (.obj (payload ++
            [(PyStr.ofText "manifestDigest", .str (PyStr.ofText digest))]))).length then
          .error .runnerManifestTooLarge
        else
          .ok { executionId := r.executionId, repository := r.repository, sourceCommit := r.sourceCommit
                sourceTree := r.sourceTree, patch := r.patch, authorizedPaths := r.authorizedPaths
                actions := r.actions, issuedAt := isoformat r.issuedAt.micros
                expiresAt := isoformat r.expiresAt.micros, authorityDigest := r.authorityDigest
                manifestDigest := digest }

end

/-! ## The paths of the headers -/

/-- The path a header line names, as it stands there. -/
def headerPath (line : Text) (rest : List Text) : Option Text :=
  if startsWith "diff --git a/" line then (line.splitOn ' ')[3]?.map (List.drop 2)
  else if startsWith "--- " line then rest.head?.map (selectedPath line)
  else none

/-- The paths the headers of some lines name. -/
def headerPaths : List Text → List Text
  | [] => []
  | line :: rest => (headerPath line rest).toList ++ headerPaths rest

/-- No component is `.`, `..` or, ignoring case, `.git`. -/
def Confined (path : Text) : Prop :=
  ∀ part ∈ path.splitOn '/', part ≠ ['.'] ∧ part ≠ ['.', '.'] ∧ part.map Char.toLower ≠ ".git".toList

instance (path : Text) : Decidable (Confined path) := by
  unfold Confined
  infer_instance

theorem gitHeaderPath_some {line path : Text} (h : gitHeaderPath line = some path) :
    (line.splitOn ' ')[3]?.map (List.drop 2) = some path := by
  unfold gitHeaderPath at h
  split at h
  · next first second before after hparts =>
    rw [hparts]
    split at h
    · cases h
    split at h
    · cases h
    · exact h
  · cases h

/-- What the loop collects are the paths of the headers. -/
theorem readPaths_mem {paths read : List Text} {lines : List Text} (h : readPaths paths lines = some read) (path : Text) :
    path ∈ read ↔ path ∈ paths ∨ path ∈ headerPaths lines := by
  induction lines generalizing paths with
  | nil =>
    obtain rfl := Option.some.inj h
    simp [headerPaths]
  | cons line rest ih =>
    rw [readPaths.eq_def] at h
    dsimp only at h
    rw [headerPaths, List.mem_append]
    by_cases hgit : startsWith "diff --git a/" line = true
    · rw [if_pos hgit] at h
      cases hheader : gitHeaderPath line with
      | none =>
        rw [hheader] at h
        cases h
      | some named =>
        rw [hheader] at h
        have hpath : headerPath line rest = some named := by
          rw [headerPath, if_pos hgit, gitHeaderPath_some hheader]
        rw [ih h, hpath, Option.toList_some, List.mem_singleton, ← or_assoc]
        apply or_congr_left
        split
        · next hmem =>
          constructor
          · exact Or.inl
          · intro hor
            rcases hor with hor | rfl
            · exact hor
            · exact hmem
        · rw [List.mem_append, List.mem_singleton]
    rw [if_neg hgit] at h
    by_cases hminus : startsWith "--- " line = false
    · rw [if_pos hminus] at h
      have hpath : headerPath line rest = none := by
        rw [headerPath, if_neg hgit, if_neg (by rw [hminus]; decide)]
      rw [ih h, hpath, Option.toList_none]
      simp
    · rw [if_neg hminus] at h
      cases rest with
      | nil => cases h
      | cons next more =>
        dsimp only at h
        split at h
        · cases h
        split at h
        · cases h
        · have hpath : headerPath line (next :: more) = some (selectedPath line next) := by
            rw [headerPath, if_neg hgit, if_pos ((Bool.not_eq_false _).mp hminus), List.head?_cons, Option.map_some]
          rw [ih h, hpath, Option.toList_some, List.mem_append, List.mem_singleton, or_assoc]

theorem patchPaths_mem {patch : Text} {paths : List String} (h : patchPaths patch = some paths) (path : String) :
    path ∈ paths ↔ path.toList ∈ headerPaths (textLines patch) := by
  obtain ⟨read, hread, rfl⟩ := Option.map_eq_some_iff.mp h
  rw [List.mem_map]
  constructor
  · intro hmem
    obtain ⟨found, hfound, rfl⟩ := hmem
    rw [String.toList_ofList]
    rcases (readPaths_mem hread found).mp (List.mem_eraseDups.mp hfound) with hnil | hheader
    · cases hnil
    · exact hheader
  · intro hheader
    exact ⟨path.toList, List.mem_eraseDups.mpr ((readPaths_mem hread path.toList).mpr (Or.inr hheader)),
      String.ofList_toList⟩

/-- The authorized paths of an issued manifest are the paths of the headers of its patch. -/
theorem issue_paths {sha256 : Bytes → String} {isoformat : Int → String} {r : IssueRequest} {m : RunnerManifest}
    (h : RunnerManifest.issue sha256 isoformat r = .ok m) (path : String) :
    path ∈ m.authorizedPaths ↔ path.toList ∈ headerPaths (textLines r.patch) := by
  unfold RunnerManifest.issue at h
  split at h
  · cases h
  split at h
  · cases h
  next changed hchanged =>
  split at h
  · cases h
  next hsame =>
  split at h
  · cases h
  next hauthority =>
  dsimp only at h
  split at h
  · cases h
  obtain rfl := Except.ok.inj h
  dsimp only
  rw [not_or, not_not, not_not] at hauthority
  by_cases hpatch : r.patch = []
  · -- without a patch there are no headers and no paths
    have hempty : r.authorizedPaths = [] := by
      have hsecond := hauthority.2
      rw [decide_eq_decide] at hsecond
      by_contra hne
      exact hsecond.mpr hne hpatch
    rw [hempty, hpatch]
    simp [textLines, splitlines, splitAfter, headerPaths]
  · rw [not_and, not_or, not_not] at hsame
    obtain ⟨-, hsub, hsup⟩ := hsame hpatch
    rw [← patchPaths_mem hchanged]
    exact ⟨fun hmem => hsup hmem, fun hmem => hsub hmem⟩

/-- A request to write one file. -/
def request (path : String) : IssueRequest where
  executionId := "job-1"
  repository := "owner/name"
  sourceCommit := String.ofList (List.replicate 40 'a')
  sourceTree := String.ofList (List.replicate 40 'b')
  patch := ("--- /dev/null\n+++ b/" ++ path ++ "\n@@ -0,0 +1 @@\n+x\n").toList
  authorizedPaths := [path]
  actions := ["inspect_source", "apply_patch", "git_diff"]
  issuedAt := ⟨true, 0⟩
  expiresAt := ⟨true, 600000000⟩
  authorityDigest := String.ofList (List.replicate 64 'c')

/-- The manifest of a request, where it is issued. -/
def issued (path : String) : Option RunnerManifest :=
  match RunnerManifest.issue (fun _ => "0") (fun _ => "1970-01-01T00:00:00Z") (request path) with
  | .ok m => some m
  | .error _ => none

theorem issue_of_issued {path : String} {m : RunnerManifest} (h : issued path = some m) :
    RunnerManifest.issue (fun _ => "0") (fun _ => "1970-01-01T00:00:00Z") (request path) = .ok m := by
  unfold issued at h
  split at h
  · next hissue => exact hissue.trans (congrArg Except.ok (Option.some.inj h))
  · cases h

end LilTweak.Github
