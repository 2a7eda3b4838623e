import LilTweak.Worlds.Lifecycle
import LilTweak.Worlds.Judging
import LilTweak.Evidence.Reproduction
import Mathlib

/-!
# What a retry starts from

A judged attempt leaves its work behind as the cumulative patch from the baseline, and a retry
replays the patch of the attempt right before it. An attempt that ends in an error stores no
patch: a retry after it starts from the baseline again, whatever was judged before.
-/

namespace LilTweak.Worlds

open LilTweak.Lib LilTweak.Core LilTweak.Store LilTweak.Evidence

/-! ## The workspace of an attempt -/

/-- Two file maps hold the same files. -/
def SameFiles (m m' : Dict String Bytes) : Prop := ∀ name, m.get? name = m'.get? name

/-- The workspace of one attempt in `TestWorldRuntime`, which the callbacks of the runner work on:
the snapshot taken after the checkout, what `apply_patch` promotes on top of it and the snapshot
taken once the agent is done. What a strict reading of the patch gives is what is promoted. -/
structure Session (sha256 : Sha256) (env : Environment) where
  baseline : WorkspaceSnapshot
  final : WorkspaceSnapshot
  maxBytes : Int
  promoted : String → Except Raised (Dict String Bytes)
  applies : ∀ patch files m, promoted patch = .ok files →
    applyPatch (encodeUtf8 patch.toList) baseline.contents = some m → SameFiles files m
  replays : ∀ patch, env.applyPreviousPatch patch = (promoted patch).map fun _ => ()
  captures : ∀ patch, env.captureCumulativePatch = .ok patch → ∃ text : String,
    patch = PyStr.ofText text ∧
      buildWorkspacePatch sha256 baseline final maxBytes = .ok (encodeUtf8 text.toList)

namespace Session

variable {sha256 : Sha256} {env : Environment} (S : Session sha256 env)

/-- The checkout, with the patch of the previous attempt on top. -/
def replayed : Option TestWorldAttempt → Except Raised (Dict String Bytes)
  | none => .ok S.baseline.contents
  | some previous =>
    if previous.cumulativePatch ≠ "" then S.promoted previous.cumulativePatch
    else .ok S.baseline.contents

/-- The workspace `run_agent` is handed. -/
def handed (s : MemoryTestWorldStore) (world : TestWorld) (attempt : TestWorldAttempt)
    (ownerId : String) : Except Raised (Dict String Bytes) := do
  env.prepareWorkspace world attempt
  let previous ← Environment.previousAttempt s attempt ownerId
  S.replayed previous

theorem replay_eq (previous : Option TestWorldAttempt) :
    env.replay previous = (S.replayed previous).map fun _ => () := by
  cases previous with
  | none => rfl
  | some previous =>
    unfold Environment.replay replayed
    simp only
    by_cases h : previous.cumulativePatch ≠ ""
    · rw [if_pos h, if_pos h, S.replays]
    · rw [if_neg h, if_neg h]
      rfl

/-- A run with a result handed a workspace over, and records the patch it captured. -/
theorem of_attemptResult {s : MemoryTestWorldStore} {world : TestWorld} {attempt : TestWorldAttempt}
    {ownerId : String} {c : CompleteCall} (h : env.attemptResult s world attempt ownerId = .ok c) :
    (∃ files, S.handed s world attempt ownerId = .ok files) ∧
      env.captureCumulativePatch = .ok c.cumulativePatch := by
  unfold Environment.attemptResult at h
  unfold handed
  cases hprepare : env.prepareWorkspace world attempt with
  | error e => rw [hprepare] at h; cases h
  | ok _ =>
    rw [hprepare, ok_bind] at h
    rw [ok_bind]
    cases hprevious : Environment.previousAttempt s attempt ownerId with
    | error e => rw [hprevious] at h; cases h
    | ok previous =>
      rw [hprevious, ok_bind, S.replay_eq] at h
      rw [ok_bind]
      cases hfiles : S.replayed previous with
      | error e => rw [hfiles] at h; cases h
      | ok files =>
        rw [hfiles] at h
        refine ⟨⟨files, rfl⟩, ?_⟩
        cases hagent : env.runAgent (attemptPrompt env.float world previous) with
        | error e => rw [hagent] at h; cases h
        | ok agent =>
          cases hcapture : env.captureCumulativePatch with
          | error e => rw [hagent, hcapture] at h; cases h
          | ok patch =>
            cases hjudge : env.judge world.checks with
            | error e => rw [hagent, hcapture, hjudge] at h; cases h
            | ok judged =>
              cases hclean : env.cleanupWorkspace with
              | error e => rw [hagent, hcapture, hjudge, hclean] at h; cases h
              | ok _ =>
                rw [hagent, hcapture, hjudge, hclean] at h
                rw [← Except.ok.inj h]

end Session

/-! ## Patches on equal file maps -/

theorem SameFiles.symm {m m' : Dict String Bytes} (h : SameFiles m m') : SameFiles m' m :=
  fun name => (h name).symm

theorem SameFiles.trans {m m' m'' : Dict String Bytes} (h : SameFiles m m') (h' : SameFiles m' m'') :
    SameFiles m m'' := fun name => (h name).trans (h' name)

theorem SameFiles.set {m m' : Dict String Bytes} (h : SameFiles m m') (name : String) (data : Bytes) :
    SameFiles (m.set name data) (m'.set name data) := by
  intro k
  rw [Dict.get?_set, Dict.get?_set, h k]

theorem SameFiles.erase {m m' : Dict String Bytes} (h : SameFiles m m') (name : String) :
    SameFiles (m.erase name) (m'.erase name) := by
  intro k
  rw [Dict.get?_erase, Dict.get?_erase, h k]

/-- Both are refused, or both give the same files. -/
def SameOutcome : Option (Dict String Bytes) → Option (Dict String Bytes) → Prop
  | some m, some m' => SameFiles m m'
  | none, none => True
  | _, _ => False

theorem applyFile_same {m m' : Dict String Bytes} (h : SameFiles m m') (d : FileDiff) :
    SameOutcome (applyFile m d) (applyFile m' d) := by
  obtain ⟨old, new, hunks⟩ := d
  unfold applyFile
  cases old with
  | none =>
    cases new with
    | none => trivial
    | some name =>
      simp only
      rw [h name]
      cases m'.get? name with
      | some data => trivial
      | none =>
        cases applyHunks 0 0 [] hunks with
        | none => trivial
        | some ls => exact h.set name _
  | some name =>
    cases new with
    | none =>
      simp only
      rw [h name]
      cases m'.get? name with
      | none => trivial
      | some data =>
        simp only
        cases applyHunks 0 0 (physicalLines data) hunks with
        | none => trivial
        | some ls =>
          cases ls with
          | nil => exact h.erase name
          | cons _ _ => trivial
    | some name' =>
      simp only
      by_cases hname : name ≠ name'
      · rw [if_pos hname, if_pos hname]
        trivial
      · rw [if_neg hname, if_neg hname, h name]
        cases m'.get? name with
        | none => trivial
        | some data =>
          simp only
          cases applyHunks 0 0 (physicalLines data) hunks with
          | none => trivial
          | some ls => exact h.set name _

theorem applyFiles_same (diffs : List FileDiff) {m m' : Dict String Bytes} (h : SameFiles m m') :
    SameOutcome (diffs.foldlM applyFile m) (diffs.foldlM applyFile m') := by
  induction diffs generalizing m m' with
  | nil => exact h
  | cons d diffs ih =>
    rw [List.foldlM_cons, List.foldlM_cons]
    have hstep := applyFile_same h d
    cases hm : applyFile m d with
    | none =>
      cases hm' : applyFile m' d with
      | none => trivial
      | some n' => rw [hm, hm'] at hstep; exact hstep.elim
    | some n =>
      cases hm' : applyFile m' d with
      | none => rw [hm, hm'] at hstep; exact hstep.elim
      | some n' =>
        rw [hm, hm'] at hstep
        exact ih hstep

/-- A patch does the same to two maps of the same files. -/
theorem applyPatch_same {m m' : Dict String Bytes} (h : SameFiles m m') (patch : Bytes) :
    SameOutcome (applyPatch patch m) (applyPatch patch m') := by
  unfold applyPatch
  cases readFiles (physicalLines patch).length (physicalLines patch) with
  | none => trivial
  | some diffs => exact applyFiles_same diffs h

/-! ## Histories -/

/-- The judge has passed or failed the attempt. -/
def TestWorldAttempt.isJudged (a : TestWorldAttempt) : Bool :=
  a.status == .passed || a.status == .failed

/-- The trees of a history: what a checkout of each world's commit holds, and what the workspace
of each attempt held when its patch was captured. -/
structure Trees where
  baseline : String → WorkspaceSnapshot
  captured : String → WorkspaceSnapshot

namespace Trees

variable (T : Trees) {sha256 : Sha256} {D : Digests} {float : ℚ → String}

/-- The tree of the latest judged attempt, or the baseline. -/
def latest (worldId : String) (earlier : List TestWorldAttempt) : Dict String Bytes :=
  match (earlier.filter TestWorldAttempt.isJudged).getLast? with
  | some a => (T.captured a.id).contents
  | none => (T.baseline worldId).contents

/-- A completion records the result of a run that captured the tree of its attempt. -/
def Recorded (sha256 : Sha256) (s : MemoryTestWorldStore) : Call → Prop
  | .completeAttempt lease c => ∀ a, s.attempts.get? lease.attemptId = some a →
      ∃ (env : Environment) (S : Session sha256 env) (s' : MemoryTestWorldStore) (world : TestWorld)
        (attempt : TestWorldAttempt) (ownerId : String),
        env.attemptResult s' world attempt ownerId = .ok c ∧
          SameFiles S.baseline.contents (T.baseline a.worldId).contents ∧
          S.final = T.captured a.id ∧ Distinguishes sha256 (S.baseline.digested ++ S.final.digested)
  | _ => True

/-- The patch of a completion reproduces its tree, and no retry is asked for right after an error
that hides the work of a judged attempt. -/
def Continues (s : MemoryTestWorldStore) : Call → Prop
  | .completeAttempt lease _ => ∀ a, s.attempts.get? lease.attemptId = some a →
      HunksAtFeeds (T.baseline a.worldId) (T.captured a.id) ∧
        NoEmptyChange (T.baseline a.worldId) (T.captured a.id)
  | .enqueueAttempt worldId _ _ mode _ => AttemptMode.ofValue? mode = some .retry →
      ∀ earlier last, s.worldAttempts worldId = .ok (earlier ++ [last]) → last.status = .error →
        SameFiles (T.latest worldId earlier) (T.baseline worldId).contents
  | _ => True

/-- The patch of the attempt brings a checkout to its tree. -/
def Carries (a : TestWorldAttempt) : Prop :=
  ∀ files, SameFiles files (T.baseline a.worldId).contents →
    ∃ m, applyPatch (encodeUtf8 a.cumulativePatch.toList) files = some m ∧
      SameFiles m (T.captured a.id).contents

end Trees

/-! ## What a call makes of an attempt -/

namespace MemoryTestWorldStore

variable {D : Digests} {float : ℚ → String} {s s' : MemoryTestWorldStore} {t : Time}

/-- The attempt an accepted call leaves in the store, from what the store held before. -/
inductive Became (float : ℚ → String) (s : MemoryTestWorldStore) (t : Time) : Call → TestWorldAttempt → Prop
  | kept {c : Call} {a : TestWorldAttempt} (stored : s.attempts.get? a.id = some a) : Became float s t c a
  | reopened {c : Call} {a : TestWorldAttempt} {status : AttemptStatus} {startedAt : Option Time}
      (stored : s.attempts.get? a.id = some a) (running : a.status.active = true)
      (active : status.active = true) : Became float s t c { a with status, startedAt }
  | judged {lease : TestWorldLease} {c : CompleteCall} {a : TestWorldAttempt} {result : AttemptResult}
      (stored : s.attempts.get? lease.attemptId = some a) (own : a.id = lease.attemptId)
      (valid : c.validate float = .ok result) : Became float s t (.completeAttempt lease c) (a.judged result t)
  | errored {lease : TestWorldLease} {c : FailCall} {a : TestWorldAttempt} {error : AttemptError}
      (stored : s.attempts.get? a.id = some a) (running : a.status.active = true) :
      Became float s t (.failAttempt lease c) (a.errored error t)
  | queued {worldId owner key mode : String} {uuid : Uuid} {a : TestWorldAttempt}
      {earlier : List TestWorldAttempt} (listed : s.HasAttempts worldId earlier)
      (idle : ∀ b ∈ earlier, b.status.active = false) (asked : AttemptMode.ofValue? mode = some a.mode)
      (number : a.number = earlier.length + 1)
      (previous : a.previousAttemptId = earlier.getLast?.map TestWorldAttempt.id)
      (world : a.worldId = worldId) (open_ : a.status = .queued) (blank : a.cumulativePatch = "") :
      Became float s t (.enqueueAttempt worldId owner key mode uuid) a

/-- Every attempt of the store became what it is through the call. -/
def AllBecame (float : ℚ → String) (s : MemoryTestWorldStore) (t : Time) (c : Call)
    (s' : MemoryTestWorldStore) : Prop :=
  ∀ id a, s'.attempts.get? id = some a → Became float s t c a

theorem Tied.allKept (h : Tied s) (c : Call) (hsame : s'.attempts = s.attempts) :
    AllBecame float s t c s' := by
  intro id a ha
  rw [hsame] at ha
  obtain rfl := (h.attempt id a ha).1
  exact .kept ha

/-- One attempt is written, the others are kept. -/
theorem Tied.allBecame (h : Tied s) {c : Call} {id : String} {b : TestWorldAttempt}
    (hset : s'.attempts = s.attempts.set id b) (hb : Became float s t c b) : AllBecame float s t c s' := by
  intro k a ha
  rw [hset] at ha
  by_cases hk : k = id
  · rw [hk, Dict.get?_set_self] at ha
    obtain rfl := Option.some.inj ha
    exact hb
  · rw [Dict.get?_set_ne _ _ hk] at ha
    obtain rfl := (h.attempt k a ha).1
    exact .kept ha

theorem enqueueAttempt_became (h : Lawful s) {worldId owner key mode : String} {uuid : Uuid} :
    Yields (fun r => AllBecame float s t (.enqueueAttempt worldId owner key mode uuid) r.2) (fun _ => True)
      (s.enqueueAttempt worldId owner key mode uuid t) := by
  refine Yields.ite (fun _ => trivial) fun _ => ?_
  split
  · trivial
  next attemptMode hmode =>
  split
  · refine Yields.ite (fun _ => trivial) fun _ => ?_
    apply Yields.map
    exact (item_yields _ _).weaken (fun _ _ => h.tied.allKept _ rfl) fun _ _ => trivial
  split
  · trivial
  next world howned =>
  have hworld := (Option.filter_eq_some_iff.mp howned).1
  refine Yields.ite (fun _ => trivial) fun _ => ?_
  obtain ⟨attempts, has, -⟩ := h.chronicle worldId world hworld
  have hids : item s.attemptIds worldId = .ok (attempts.map TestWorldAttempt.id) := by rw [item, has.ids]
  rw [hids, ok_bind, has.worldAttempts_eq, ok_bind]
  refine Yields.ite (fun _ => trivial) fun hidle => ?_
  refine Yields.ite (fun _ => trivial) fun _ => ?_
  have hnone : ∀ b ∈ attempts, b.status.active = false := by
    intro b hb
    apply Bool.eq_false_iff.mpr
    intro hactive
    exact hidle (List.any_eq_true.mpr ⟨b, hb, hactive⟩)
  apply h.tied.allBecame rfl
  apply Became.queued has hnone hmode
  · simp
  · simp
  · rfl
  · rfl
  · rfl

theorem claimAttempt_became (h : Lawful s) {attemptId workerId : String} {seconds : Int} :
    Yields (fun r => AllBecame float s t (.claimAttempt attemptId workerId seconds) r.2) (fun _ => True)
      (s.claimAttempt attemptId workerId seconds t) := by
  refine Yields.ite (fun _ => trivial) fun _ => ?_
  split
  · exact h.tied.allKept _ rfl
  next attempt ha =>
  refine Yields.ite (fun _ => h.tied.allKept _ rfl) fun hready => ?_
  rw [not_or, not_not] at hready
  obtain ⟨w, -, hitem⟩ := h.parent ha
  simp only [hitem, ok_bind]
  rw [← (h.tied.attempt _ _ ha).1] at ha
  apply h.tied.allBecame rfl
  apply Became.reopened ha
  · rw [hready.1]
    rfl
  · rfl

theorem completeAttempt_became (h : Lawful s) {lease : TestWorldLease} {c : CompleteCall} :
    Yields (fun r => AllBecame float s t (.completeAttempt lease c) r.2) (fun _ => True)
      (s.completeAttempt float lease c t) := by
  unfold completeAttempt
  cases hvalid : c.validate float with
  | error e => trivial
  | ok result =>
    refine (leasedAttempt_admits lease _).bind fun attempt hleased => ?_
    obtain ⟨ha, -⟩ := hleased
    obtain ⟨w, -, hitem⟩ := h.parent ha
    rw [hitem, ok_bind]
    refine Yields.ite (fun _ => trivial) fun _ => Yields.ite (fun _ => trivial) fun _ => ?_
    apply h.tied.allBecame rfl
    exact .judged ha (h.tied.attempt _ _ ha).1 hvalid

theorem failAttempt_became (h : Lawful s) {lease : TestWorldLease} {c : FailCall} :
    Yields (fun r => AllBecame float s t (.failAttempt lease c) r.2) (fun _ => True)
      (s.failAttempt float lease c t) := by
  unfold failAttempt
  cases c.validate float with
  | error e => trivial
  | ok error =>
    refine (leasedAttempt_admits lease _).bind fun attempt hleased => ?_
    obtain ⟨ha, current, -, hadmits⟩ := hleased
    obtain ⟨w, -, hitem⟩ := h.parent ha
    simp only [hitem, ok_bind]
    rw [← (h.tied.attempt _ _ ha).1] at ha
    simp only [Bool.and_eq_true, beq_iff_eq] at hadmits
    apply h.tied.allBecame rfl
    apply Became.errored ha
    rw [hadmits.1.1.1]
    rfl

theorem reconcileActiveAttempts_became (h : Lawful s) {limit : Int} :
    Yields (fun r => AllBecame float s t (.reconcileActiveAttempts limit) r.2) (fun _ => True)
      (s.reconcileActiveAttempts limit t) := by
  refine Yields.ite (fun _ => trivial) fun _ => ?_
  refine Yields.foldlM
    (P := fun r : List TestWorldAttempt × MemoryTestWorldStore =>
      AllBecame float s t (.reconcileActiveAttempts limit) r.2) _ (h.tied.allKept _ rfl) fun r attempt hmem hr => ?_
  obtain ⟨id, hget⟩ := mem_values ((List.mem_insertionSort _).mp hmem)
  obtain rfl := (h.tied.attempt id attempt hget).1
  refine Yields.ite (fun _ => hr) fun hskip => Yields.ite (fun _ => hr) fun _ => ?_
  refine (item_yields _ _).bind fun w _ => ?_
  intro k a ha
  by_cases hk : k = attempt.id
  · rw [hk] at ha
    obtain rfl := Option.some.inj ((Dict.get?_set_self _ _ _).symm.trans ha)
    apply Became.reopened hget
    · rw [not_or, not_not] at hskip
      rw [hskip.2]
      rfl
    · rfl
  · exact hr k a ((Dict.get?_set_ne _ _ hk).symm.trans ha)

/-- Every call leaves each attempt as one of these. -/
theorem call_became (h : Lawful s) (c : Call) :
    Yields (fun r => AllBecame float s t c r.2) (fun _ => True) (s.call D float t c) := by
  cases c with
  | createWorld owner key d uuid =>
    refine yields_wrap (Yields.ite (fun _ => trivial) fun _ => ?_)
    simp only
    split
    · refine Yields.ite (fun _ => trivial) fun _ => ?_
      apply Yields.map
      exact (item_yields _ _).weaken (fun _ _ => h.tied.allKept _ rfl) fun _ _ => trivial
    · exact h.tied.allKept _ rfl
  | enqueueAttempt worldId owner key mode uuid => exact yields_wrap (enqueueAttempt_became h)
  | reconcileActiveAttempts limit => exact yields_wrap (reconcileActiveAttempts_became h)
  | claimAttempt attemptId worker seconds => exact yields_wrap (claimAttempt_became h)
  | renewAttempt lease seconds =>
    refine yields_wrap (Yields.ite (fun _ => trivial) fun _ => ?_)
    split
    · trivial
    · exact Yields.ite (fun _ => trivial) fun _ => h.tied.allKept _ rfl
  | releaseAttempt lease =>
    exact yields_wrap (f := fun _ => Answer.unit)
      (Yields.ite (fun _ => h.tied.allKept _ rfl) fun _ => h.tied.allKept _ rfl)
  | completeAttempt lease c => exact yields_wrap (completeAttempt_became h)
  | failAttempt lease c => exact yields_wrap (failAttempt_became h)

end MemoryTestWorldStore

/-! ## What is known of every attempt -/

namespace Trees

variable {T : Trees} {sha256 : Sha256} {D : Digests} {float : ℚ → String} {s s' : MemoryTestWorldStore}
  {t : Time} {a b : TestWorldAttempt} {earlier : List TestWorldAttempt}

/-- The attempts before `a`, all ended, and what holds of them if `a` is a retry. -/
structure Follows (T : Trees) (s : MemoryTestWorldStore) (a : TestWorldAttempt)
    (earlier : List TestWorldAttempt) : Prop where
  ended : ∀ b ∈ earlier, s.attempts.get? b.id = some b ∧ b.status.active = false ∧ b.worldId = a.worldId
  numbered : ∀ k b, earlier[k]? = some b → b.number = k + 1
  number : a.number = earlier.length + 1
  previous : a.previousAttemptId = earlier.getLast?.map TestWorldAttempt.id
  unhidden : a.mode = .retry → ∀ before last, earlier = before ++ [last] → last.status = .error →
    SameFiles (T.latest a.worldId before) (T.baseline a.worldId).contents

/-- A judged attempt carries its tree, any other carries nothing, and each follows on others. -/
structure Known (T : Trees) (s : MemoryTestWorldStore) (a : TestWorldAttempt) : Prop where
  carries : a.isJudged = true → T.Carries a
  blank : a.isJudged = false → a.cumulativePatch = ""
  follows : ∃ earlier, T.Follows s a earlier

theorem Follows.forward (h : T.Follows s a earlier) (hforward : s.Forward s')
    (hworld : b.worldId = a.worldId) (hnumber : b.number = a.number)
    (hprevious : b.previousAttemptId = a.previousAttemptId) (hmode : b.mode = a.mode) :
    T.Follows s' b earlier := by
  constructor
  · intro c hc
    obtain ⟨hget, hended, hown⟩ := h.ended c hc
    exact ⟨hforward.finished _ _ hget hended, hended, hown.trans hworld.symm⟩
  · exact h.numbered
  · rw [hnumber, h.number]
  · rw [hprevious, h.previous]
  · rw [hmode, hworld]
    exact h.unhidden

theorem isJudged_of_active (h : a.status.active = true) : a.isJudged = false := by
  revert h
  unfold TestWorldAttempt.isJudged
  cases a.status <;> decide

/-- The patch a completion records is the one it was called with. -/
theorem validate_patch (c : CompleteCall) (float : ℚ → String) :
    Yields (fun r => c.cumulativePatch.text? = some r.cumulativePatch) (Harmless False) (c.validate float) := by
  refine (boundedText_yields _ _ _ _).bind fun cumulativePatch hpatch => ?_
  refine (validateFeedback_yields _ _).bind fun _ _ => ?_
  refine (validateDuration_yields _ _ _).bind fun _ _ => ?_
  refine (validateDuration_yields _ _ _).bind fun _ _ => ?_
  refine Yields.ite (fun _ => ⟨by simp, by simp⟩) fun _ => ?_
  refine (boundedText_yields _ _ _ _).bind fun _ _ => ?_
  refine (boundedText_yields _ _ _ _).bind fun _ _ => ?_
  refine (boundedText_yields _ _ _ _).bind fun _ _ => ?_
  exact Yields.ite (fun _ => ⟨by simp, by simp⟩) fun _ => hpatch.1

/-- A completion that was recorded, with a patch that reproduces its tree, carries the tree. -/
theorem carries_judged {lease : TestWorldLease} {c : CompleteCall} {result : AttemptResult}
    (hrecorded : T.Recorded sha256 s (.completeAttempt lease c))
    (hcontinues : T.Continues s (.completeAttempt lease c))
    (hget : s.attempts.get? lease.attemptId = some a) (hvalid : c.validate float = .ok result) :
    T.Carries (a.judged result t) := by
  obtain ⟨env, S, s', world, attempt, ownerId, hrun, hbase, hfinal, hdigests⟩ := hrecorded a hget
  obtain ⟨hfeeds, hempty⟩ := hcontinues a hget
  obtain ⟨text, htext, hbuild⟩ := S.captures _ (S.of_attemptResult hrun).2
  have hpatch : (a.judged result t).cumulativePatch = text := by
    have hkept := validate_patch c float
    rw [hvalid, yields_ok, htext, PyStr.text?_ofText] at hkept
    exact (Option.some.inj hkept).symm
  have hfeeds' : HunksAtFeeds S.baseline S.final := by
    intro name hname s t hs ht
    rw [hbase name] at hname hs
    rw [hfinal] at hname ht
    exact hfeeds name hname s t hs ht
  have hempty' : NoEmptyChange S.baseline S.final := by
    intro name
    rw [hbase name, hfinal]
    exact hempty name
  obtain ⟨m₀, happly, hm₀⟩ := (patch_reproduces_iff hdigests hfeeds' hbuild).mpr hempty'
  intro files hfiles
  rw [hpatch]
  have hsame := applyPatch_same (hfiles.trans hbase.symm) (encodeUtf8 text.toList)
  rw [happly] at hsame
  cases hm : applyPatch (encodeUtf8 text.toList) files with
  | none =>
    rw [hm] at hsame
    exact hsame.elim
  | some m =>
    rw [hm] at hsame
    rw [hfinal] at hm₀
    exact ⟨m, rfl, hsame.trans hm₀⟩

theorem known_step (hlaw : s.Lawful) (hforward : s.Forward s') {c : Call}
    (hrecorded : T.Recorded sha256 s c) (hcontinues : T.Continues s c)
    (hknown : ∀ id a, s.attempts.get? id = some a → T.Known s a)
    (hbecame : MemoryTestWorldStore.Became float s t c a) : T.Known s' a := by
  cases hbecame with
  | kept stored =>
    obtain ⟨hcarries, hblank, earlier, hfollows⟩ := hknown _ _ stored
    exact ⟨hcarries, hblank, earlier, hfollows.forward hforward rfl rfl rfl rfl⟩
  | reopened stored running active =>
    obtain ⟨-, hblank, earlier, hfollows⟩ := hknown _ _ stored
    refine ⟨fun hj => ?_, fun _ => hblank (isJudged_of_active running),
      earlier, hfollows.forward hforward rfl rfl rfl rfl⟩
    rw [isJudged_of_active active] at hj
    cases hj
  | judged stored own valid =>
    obtain ⟨-, -, earlier, hfollows⟩ := hknown _ _ stored
    refine ⟨fun _ => carries_judged hrecorded hcontinues stored valid, fun hj => ?_,
      earlier, hfollows.forward hforward rfl rfl rfl rfl⟩
    unfold TestWorldAttempt.isJudged TestWorldAttempt.judged at hj
    revert hj
    split <;> simp
  | errored stored running =>
    obtain ⟨-, hblank, earlier, hfollows⟩ := hknown _ _ stored
    exact ⟨nofun, fun _ => hblank (isJudged_of_active running),
      earlier, hfollows.forward hforward rfl rfl rfl rfl⟩
  | @queued worldId _ _ _ _ _ earlier listed idle asked number previous world open_ blank =>
    refine ⟨fun hj => ?_, fun _ => blank, earlier, ?_⟩
    · rw [isJudged_of_active (by rw [open_]; rfl)] at hj
      cases hj
    · constructor
      · intro b hb
        have hstored := listed.stored b hb
        have hown := (listed.all _ _ hstored).mpr hb
        exact ⟨hforward.finished _ _ hstored (idle b hb), idle b hb, hown.trans world.symm⟩
      · intro k b hb
        obtain ⟨w, hw, -⟩ := hlaw.parent (listed.stored b (List.mem_of_getElem? hb))
        have hown := (listed.all _ _ (listed.stored b (List.mem_of_getElem? hb))).mpr (List.mem_of_getElem? hb)
        rw [hown] at hw
        obtain ⟨attempts, hattempts, hchron⟩ := hlaw.chronicle _ w hw
        have heq := Except.ok.inj (hattempts.worldAttempts_eq.symm.trans listed.worldAttempts_eq)
        rw [heq] at hchron
        exact (hchron.numbered k b hb).1
      · exact number
      · exact previous
      · intro hretry before last hsplit herror
        rw [hretry] at asked
        rw [world]
        exact hcontinues asked before last (hsplit ▸ listed.worldAttempts_eq) herror

/-- What holds of each accepted call of a history, in the state it was made in. -/
def EachAccepted (D : Digests) (float : ℚ → String) (l : List (Call × Time))
    (P : MemoryTestWorldStore → Call → Prop) : Prop :=
  ∀ before c after, l = before ++ c :: after →
    ∀ r, (MemoryTestWorldStore.history D float before).call D float c.2 c.1 = .ok r →
      P (MemoryTestWorldStore.history D float before) c.1

theorem EachAccepted.init {l : List (Call × Time)} {c : Call × Time}
    {P : MemoryTestWorldStore → Call → Prop} (h : EachAccepted D float (l ++ [c]) P) :
    EachAccepted D float l P := by
  intro before c' after hl
  apply h before c' (after ++ [c])
  rw [hl, List.append_assoc, List.cons_append]

theorem history_lawful {l : List (Call × Time)} (hfresh : MemoryTestWorldStore.AllFresh D float {} l) :
    (MemoryTestWorldStore.history D float l).Lawful :=
  (MemoryTestWorldStore.foldl_proceeds MemoryTestWorldStore.lawful_empty l hfresh).1

/-- In every history whose completions carry their trees, every attempt is known. -/
theorem history_known {l : List (Call × Time)} (hfresh : MemoryTestWorldStore.AllFresh D float {} l)
    (hrecorded : EachAccepted D float l (T.Recorded sha256)) (hcontinues : EachAccepted D float l T.Continues) :
    ∀ id a, (MemoryTestWorldStore.history D float l).attempts.get? id = some a →
      T.Known (MemoryTestWorldStore.history D float l) a := by
  induction l using List.reverseRecOn with
  | nil =>
    intro id a ha
    cases (Dict.get?_empty id).symm.trans ha
  | append_singleton l c ih =>
    obtain ⟨hinit, hlast⟩ := hfresh.append
    have hlaw := history_lawful hinit
    have hknown := ih hinit hrecorded.init hcontinues.init
    have hstep : MemoryTestWorldStore.history D float (l ++ [c]) =
        (MemoryTestWorldStore.history D float l).after D float c := List.foldl_append
    rw [hstep]
    have hproceeds : Yields (fun r => (MemoryTestWorldStore.history D float l).Proceeds r.2)
        (fun _ => (MemoryTestWorldStore.history D float l).partlyWritten float c.2 c.1 =
          MemoryTestWorldStore.history D float l)
        ((MemoryTestWorldStore.history D float l).call D float c.2 c.1) :=
      MemoryTestWorldStore.call_proceeds hlaw c.1 hlast.1
    have hbecame : Yields (fun r => (MemoryTestWorldStore.history D float l).AllBecame float c.2 c.1 r.2)
        (fun _ => True) ((MemoryTestWorldStore.history D float l).call D float c.2 c.1) :=
      MemoryTestWorldStore.call_became hlaw c.1
    unfold MemoryTestWorldStore.after
    cases hcall : (MemoryTestWorldStore.history D float l).call D float c.2 c.1 with
    | error e => exact hknown
    | ok r =>
      rw [hcall] at hproceeds hbecame
      intro id a ha
      exact known_step hlaw hproceeds.2 (hrecorded l c [] rfl r hcall) (hcontinues l c [] rfl r hcall) hknown
        (hbecame id a ha)

/-- The attempts an attempt follows on are the ones listed before it. -/
theorem Follows.eq_earlier {worldId : String} {world : TestWorld} {later before : List TestWorldAttempt}
    (h : T.Follows s a before) (has : s.HasAttempts worldId (earlier ++ a :: later))
    (hchron : Chronicle world (earlier ++ a :: later)) : before = earlier := by
  have hmem : a ∈ earlier ++ a :: later := List.mem_append_right _ List.mem_cons_self
  have hown : a.worldId = worldId := (has.all _ _ (has.stored a hmem)).mpr hmem
  have hlength : before.length = earlier.length := by
    have hnumber := (hchron.numbered earlier.length a (by simp)).1
    rw [h.number] at hnumber
    omega
  apply List.ext_getElem?
  intro k
  by_cases hk : k < before.length
  · obtain ⟨b, hb⟩ : ∃ b, before[k]? = some b := ⟨_, List.getElem?_eq_getElem hk⟩
    obtain ⟨hstored, -, hworld⟩ := h.ended b (List.mem_of_getElem? hb)
    have hlisted : b ∈ earlier ++ a :: later := (has.all _ _ hstored).mp (hworld.trans hown)
    obtain ⟨j, hj⟩ := List.mem_iff_getElem?.mp hlisted
    have hnumber := (hchron.numbered j b hj).1
    rw [h.numbered k b hb] at hnumber
    obtain rfl : j = k := by omega
    rw [List.getElem?_append_left (by omega)] at hj
    rw [hb, hj]
  · rw [List.getElem?_eq_none (by omega), List.getElem?_eq_none (by omega)]

theorem latest_judged (worldId : String) {last : TestWorldAttempt} (h : last.isJudged = true) :
    T.latest worldId (earlier ++ [last]) = (T.captured last.id).contents := by
  have hlast : ((earlier ++ [last]).filter TestWorldAttempt.isJudged).getLast? = some last := by
    rw [List.filter_append, List.filter_cons_of_pos h, List.filter_nil, List.getLast?_concat]
  unfold latest
  rw [hlast]

theorem latest_errored (worldId : String) {last : TestWorldAttempt} (h : last.isJudged = false) :
    T.latest worldId (earlier ++ [last]) = T.latest worldId earlier := by
  have hsame : (earlier ++ [last]).filter TestWorldAttempt.isJudged =
      earlier.filter TestWorldAttempt.isJudged := by
    rw [List.filter_append, List.filter_cons_of_neg (by rw [h]; simp), List.filter_nil, List.append_nil]
  unfold latest
  rw [hsame]

theorem errored_of_ended (hended : a.status.active = false) (hj : a.isJudged = false) : a.status = .error := by
  revert hended hj
  unfold TestWorldAttempt.isJudged
  cases a.status <;> decide

/-- What a retry is handed is the tree of the latest judged attempt. -/
theorem Known.handed {worldId ownerId : String} {world : TestWorld}
    (hknown : ∀ id a, s.attempts.get? id = some a → T.Known s a) (hworld : a.worldId = worldId)
    (hfollows : T.Follows s a earlier) (hretry : a.mode = .retry) {env : Environment} (S : Session sha256 env)
    (hbase : SameFiles S.baseline.contents (T.baseline worldId).contents) {files : Dict String Bytes}
    (hhanded : S.handed s world a ownerId = .ok files) : SameFiles files (T.latest worldId earlier) := by
  unfold Session.handed at hhanded
  cases hprepare : env.prepareWorkspace world a with
  | error e => rw [hprepare] at hhanded; cases hhanded
  | ok _ =>
    rw [hprepare, ok_bind] at hhanded
    have hprevious := hfollows.previous
    rcases List.eq_nil_or_concat earlier with rfl | ⟨init, last, rfl⟩
    · have hnone : Environment.previousAttempt s a ownerId = .ok none := by
        unfold Environment.previousAttempt
        rw [hprevious]
        cases a.mode <;> rfl
      rw [hnone, ok_bind] at hhanded
      obtain rfl := Except.ok.inj hhanded
      exact hbase
    rw [List.concat_eq_append] at hprevious hfollows ⊢
    rw [List.getLast?_concat, Option.map_some] at hprevious
    obtain ⟨hstored, hended, -⟩ := hfollows.ended last (List.mem_append_right _ (List.mem_singleton_self _))
    have hlast := hknown _ _ hstored
    unfold Environment.previousAttempt at hhanded
    rw [hretry, hprevious] at hhanded
    simp only at hhanded
    cases hget : s.getAttempt last.id ownerId with
    | none => rw [hget] at hhanded; cases hhanded
    | some p =>
      obtain rfl : last = p :=
        Option.some.inj (hstored.symm.trans (Option.filter_eq_some_iff.mp hget).1)
      rw [hget, ok_bind] at hhanded
      have hlastworld : last.worldId = worldId :=
        (hfollows.ended last (List.mem_append_right _ (List.mem_singleton_self _))).2.2.trans hworld
      cases hj : last.isJudged with
      | true =>
        rw [latest_judged worldId hj]
        obtain ⟨m, happly, hm⟩ := hlast.carries hj S.baseline.contents (hlastworld ▸ hbase)
        by_cases hpatch : last.cumulativePatch ≠ ""
        · have hpromoted : S.promoted last.cumulativePatch = .ok files := by
            rw [← hhanded]
            exact (if_pos hpatch).symm
          exact (S.applies _ _ _ hpromoted happly).trans hm
        · have hsame : S.baseline.contents = files := by
            apply Except.ok.inj
            rw [← hhanded]
            exact (if_neg hpatch).symm
          rw [not_not.mp hpatch, hsame] at happly
          obtain rfl : files = m := Option.some.inj happly
          exact hm
      | false =>
        rw [latest_errored worldId hj]
        have hsame : S.baseline.contents = files := by
          apply Except.ok.inj
          rw [← hhanded]
          exact (if_neg (not_not.mpr (hlast.blank hj))).symm
        have hempty := hfollows.unhidden hretry init last rfl (errored_of_ended hended hj)
        rw [hworld] at hempty
        rw [← hsame]
        exact hbase.trans hempty.symm

theorem EachAccepted.snoc {l : List (Call × Time)} {c : Call × Time}
    {P : MemoryTestWorldStore → Call → Prop} (h : EachAccepted D float l P)
    (hc : P (MemoryTestWorldStore.history D float l) c.1) : EachAccepted D float (l ++ [c]) P := by
  intro before c' after hl r hr
  rcases List.eq_nil_or_concat after with rfl | ⟨init, last, rfl⟩
  · obtain ⟨rfl, hc'⟩ := List.append_inj' hl rfl
    obtain rfl := List.head_eq_of_cons_eq hc'
    exact hc
  · have hsplit : l ++ [c] = (before ++ c' :: init) ++ [last] := by
      rw [hl, List.concat_eq_append, List.append_assoc, List.cons_append]
    exact h before c' init (List.append_inj_left' hsplit rfl) r hr

/-- The patch from `one` to `two`. -/
def samplePatch : String := "--- a/a.txt\n+++ b/a.txt\n@@ -1 +1 @@\n-one\n+two\n"

/-- The checkouts hold `one`, and every agent leaves `two`. -/
def sampleTrees : Trees where
  baseline _ := sampleSnapshot "one\n"
  captured _ := sampleSnapshot "two\n"

/-- A failed check of an attempt that was captured with the patch. -/
def sampleCompletion : CompleteCall where
  passed := false
  feedback := [judgeFeedback sampleCheck { exitCode := some 1, stdout := "", stderr := "" }]
  cumulativePatch := PyStr.ofText samplePatch
  durationMs := 3000
  judgeDurationMs := 1000

/-- The second attempt. -/
def secondUuid : Uuid :=
  ⟨"00000000000000000000000000000002", by decide +kernel, by decide +kernel⟩

/-- The first attempt is judged and fails, and a retry is asked for. -/
def judgedHistory : List (Call × Time) :=
  claimedHistory ++ [(.completeAttempt claimedLease sampleCompletion, 120)] ++
    [(.enqueueAttempt "world:00000000000000000000000000000001" "owner" "attempt-2" "retry" secondUuid, 130)]

theorem sample_build : buildWorkspacePatch sampleSha256 (sampleSnapshot "one\n") (sampleSnapshot "two\n") 4096 =
    .ok (encodeUtf8 samplePatch.toList) := by decide +kernel

def sampleWorldId : String := "world:00000000000000000000000000000001"

/-- The attempts of the sample world. -/
def sampleAttempts (l : List (Call × Time)) : List TestWorldAttempt :=
  ((MemoryTestWorldStore.history zeroDigests (fun _ => "0") l).worldAttempts sampleWorldId).toOption.getD []

theorem sampleAttempts_eq {l : List (Call × Time)} {attempts : List TestWorldAttempt}
    (h : (MemoryTestWorldStore.history zeroDigests (fun _ => "0") l).worldAttempts sampleWorldId = .ok attempts) :
    sampleAttempts l = attempts := by
  unfold sampleAttempts
  rw [h]
  rfl

/-- The attempts of the sample world after a history that leaves some. -/
theorem sampleAttempts_listed {l : List (Call × Time)} (h : sampleAttempts l ≠ []) :
    (MemoryTestWorldStore.history zeroDigests (fun _ => "0") l).worldAttempts sampleWorldId =
      .ok (sampleAttempts l) := by
  cases hr : (MemoryTestWorldStore.history zeroDigests (fun _ => "0") l).worldAttempts sampleWorldId with
  | ok attempts => rw [sampleAttempts_eq hr]
  | error e =>
    unfold sampleAttempts at h
    rw [hr] at h
    exact absurd rfl h

/-- What the sandbox of the samples promotes. -/
def samplePromoted (patch : String) : Except Raised (Dict String Bytes) :=
  match applyPatch (encodeUtf8 patch.toList) (sampleSnapshot "one\n").contents with
  | some files => .ok files
  | none => .error (.exception "previous Test World patch replay failed")

/-- A run whose agent turns `one` into `two`, and whose check fails. -/
def capturingEnvironment : Environment :=
  { sampleEnvironment { exitCode := some 1, stdout := "", stderr := "" } with
    applyPreviousPatch := fun patch => (samplePromoted patch).map fun _ => ()
    captureCumulativePatch := .ok (PyStr.ofText samplePatch) }

def sampleSession : Session sampleSha256 capturingEnvironment where
  baseline := sampleSnapshot "one\n"
  final := sampleSnapshot "two\n"
  maxBytes := 4096
  promoted := samplePromoted
  applies patch files m hpromoted happly := by
    unfold samplePromoted at hpromoted
    rw [happly] at hpromoted
    obtain rfl := Except.ok.inj hpromoted
    exact fun _ => rfl
  replays _ := rfl
  captures _ h := ⟨samplePatch, (Except.ok.inj h).symm, sample_build⟩

/-- The world the attempts of the sample run in. -/
def sampleWorld : TestWorld where
  id := sampleWorldId
  ownerId := "owner"
  name := "Practice"
  objective := "Repair."
  repositoryUrl := "https://github.com/example/project.git"
  commit := "aaaaaaaaaaaaaaaaaaaaaaaaaaaaaaaaaaaaaaaa"
  checks := [sampleCheck]
  maxAttempts := 3
  status := .running
  fingerprint := ""
  judgeVersion := ""
  createdAt := 100
  updatedAt := 110

theorem sample_elapsed : floorMs.elapsedMs 0 3 = 3000 ∧ floorMs.elapsedMs 1 2 = 1000 := by
  unfold Rounding.elapsedMs floorMs
  norm_num

theorem sample_attemptResult : capturingEnvironment.attemptResult {} sampleWorld TestWorldScheduler.sampleAttempt "owner" =
    .ok sampleCompletion := by
  unfold Environment.attemptResult
  rw [previousAttempt_first {} "owner" rfl]
  show (Except.ok { sampleCompletion with
    durationMs := floorMs.elapsedMs 0 3, judgeDurationMs := floorMs.elapsedMs 1 2 } : Except Raised CompleteCall) = _
  rw [sample_elapsed.1, sample_elapsed.2]
  rfl

/-- The completion records a run. -/
theorem sample_recorded (s : MemoryTestWorldStore) (lease : TestWorldLease) :
    sampleTrees.Recorded sampleSha256 s (.completeAttempt lease sampleCompletion) := by
  intro a _
  exact ⟨capturingEnvironment, sampleSession, {}, sampleWorld, TestWorldScheduler.sampleAttempt, "owner", sample_attemptResult,
    fun _ => rfl, rfl, by decide⟩

theorem sample_noEmptyChange : NoEmptyChange (sampleSnapshot "one\n") (sampleSnapshot "two\n") := by
  intro name
  by_cases h : name = "a.txt"
  · subst h
    decide
  · rw [sampleSnapshot_absent h, sampleSnapshot_absent h]
    intro hempty
    exact hempty.ne rfl

theorem isNone_eq {α : Type} {o : Option α} (h : o.isNone = true) : o = none := Option.isNone_iff_eq_none.mp h

theorem judgedHistory_fresh : MemoryTestWorldStore.AllFresh zeroDigests (fun _ => "0") {} judgedHistory :=
  ⟨isNone_eq (by decide +kernel), isNone_eq (by decide +kernel), trivial, trivial,
    isNone_eq (by decide +kernel), trivial⟩

theorem eachAccepted_nil (P : MemoryTestWorldStore → Call → Prop) :
    EachAccepted zeroDigests (fun _ => "0") [] P := by
  intro before c after hl
  cases before <;> cases hl

theorem judgedHistory_recorded : EachAccepted zeroDigests (fun _ => "0") judgedHistory
    (sampleTrees.Recorded sampleSha256) := by
  have hclaimed : EachAccepted zeroDigests (fun _ => "0") claimedHistory (sampleTrees.Recorded sampleSha256) := by
    refine (((eachAccepted_nil _).snoc ?_).snoc ?_).snoc ?_
    · trivial
    · trivial
    · trivial
  refine (hclaimed.snoc (sample_recorded _ _)).snoc ?_
  trivial

theorem judgedHistory_continues : EachAccepted zeroDigests (fun _ => "0") judgedHistory sampleTrees.Continues := by
  have hclaimed : EachAccepted zeroDigests (fun _ => "0") claimedHistory sampleTrees.Continues := by
    refine (((eachAccepted_nil _).snoc ?_).snoc ?_).snoc ?_
    · trivial
    · intro _ earlier last hlast
      have hnone : (sampleAttempts (claimedHistory.take 1)).length = 0 := by decide +kernel
      have hlength := congrArg List.length (sampleAttempts_eq hlast)
      rw [List.length_append, List.length_singleton] at hlength
      exact absurd (hlength.symm.trans hnone) (by omega)
    · trivial
  refine (hclaimed.snoc fun _ _ => ⟨sample_hunksAtFeeds, sample_noEmptyChange⟩).snoc ?_
  intro _ earlier last hlast herror
  have hfailed : (sampleAttempts (claimedHistory ++ [(.completeAttempt claimedLease sampleCompletion, 120)])).map
      TestWorldAttempt.status = [.failed] := by decide +kernel
  rw [sampleAttempts_eq hlast, List.map_append, List.map_singleton, herror] at hfailed
  have hlaststatus := congrArg List.getLast? hfailed
  rw [List.getLast?_concat] at hlaststatus
  cases hlaststatus

/-- What the last attempt of a sample history is handed. -/
def sampleHanded (l : List (Call × Time)) : Option (Dict String Bytes) :=
  (sampleAttempts l).getLast?.bind fun attempt =>
    (sampleSession.handed (MemoryTestWorldStore.history zeroDigests (fun _ => "0") l) sampleWorld attempt
      "owner").toOption

theorem sampleHanded_eq {l : List (Call × Time)} {files : Dict String Bytes} (h : sampleHanded l = some files)
    (hmodes : (sampleAttempts l).all (fun a => a.mode == .retry) = true) :
    ∃ attempt, attempt.mode = .retry ∧
      (MemoryTestWorldStore.history zeroDigests (fun _ => "0") l).worldAttempts sampleWorldId =
        .ok ((sampleAttempts l).dropLast ++ [attempt]) ∧
      ∀ world, sampleSession.handed (MemoryTestWorldStore.history zeroDigests (fun _ => "0") l) world attempt
        "owner" = .ok files := by
  obtain ⟨attempt, hlast, hfiles⟩ := Option.bind_eq_some_iff.mp h
  have hsplit := List.dropLast_append_getLast? attempt hlast
  have hne : sampleAttempts l ≠ [] := by
    intro hnil
    rw [hnil] at hlast
    cases hlast
  refine ⟨attempt, ?_, ?_, fun world => ?_⟩
  · exact beq_iff_eq.mp (List.all_eq_true.mp hmodes attempt (List.mem_of_getLast? hlast))
  · rw [hsplit]
    exact sampleAttempts_listed hne
  · have hany : sampleSession.handed (MemoryTestWorldStore.history zeroDigests (fun _ => "0") l) world attempt
        "owner" = sampleSession.handed (MemoryTestWorldStore.history zeroDigests (fun _ => "0") l) sampleWorld
          attempt "owner" := rfl
    rw [hany]
    cases hr : sampleSession.handed (MemoryTestWorldStore.history zeroDigests (fun _ => "0") l) sampleWorld
        attempt "owner" with
    | error e => rw [hr] at hfiles; cases hfiles
    | ok m => rw [hr] at hfiles; rw [Option.some.inj hfiles]

/-- The third attempt. -/
def thirdUuid : Uuid :=
  ⟨"00000000000000000000000000000003", by decide +kernel, by decide +kernel⟩

/-- The retry ends in an error, and another one is asked for. -/
def erroredHistory : List (Call × Time) :=
  judgedHistory ++ [(.claimAttempt "attempt:00000000000000000000000000000002" "core-1" 60, 140)] ++
    [(.failAttempt { claimedLease with
        attemptId := "attempt:00000000000000000000000000000002", expiresAt := 200 }
      capturingEnvironment.failure, 150)] ++
    [(.enqueueAttempt sampleWorldId "owner" "attempt-3" "retry" thirdUuid, 160)]

theorem erroredHistory_fresh : MemoryTestWorldStore.AllFresh zeroDigests (fun _ => "0") {} erroredHistory :=
  ⟨isNone_eq (by decide +kernel), isNone_eq (by decide +kernel), trivial, trivial,
    isNone_eq (by decide +kernel), trivial, trivial, isNone_eq (by decide +kernel), trivial⟩

end Trees

end LilTweak.Worlds
