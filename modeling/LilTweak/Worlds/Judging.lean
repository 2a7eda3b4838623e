import LilTweak.Worlds.Challenge
import LilTweak.Worlds.Runner
import Mathlib

/-!
# What a run of an attempt records

Since the challenge of a world stays, a result is recorded against the checks that were
judged. An attempt whose lease stays current is then judged exactly when every check
returned and the record validators take what the run produced.
-/

namespace LilTweak.Worlds

open LilTweak.Lib LilTweak.Core LilTweak.Store

/-! ## The validators -/

/-- The text can be encoded, in at most so many bytes. -/
def Encodes (s : PyStr) (bound : Nat) : Prop := ∃ text, s.text? = some text ∧ text.utf8ByteSize ≤ bound

theorem boundedText_ok_iff (s : PyStr) (bound : Nat) (message : String) :
    (∃ text, boundedText s bound message = .ok text) ↔ Encodes s bound := by
  unfold boundedText Encodes
  cases s.text? with
  | none => simp
  | some text => by_cases h : text.utf8ByteSize ≤ bound <;> simp [h]

/-- The record takes what the checks, the patch capture and the agent produced. -/
structure Recordable (float : ℚ → String) (feedback : List JsonObj) (cumulativePatch : PyStr)
    (agent : AgentResult) : Prop where
  feedback_fits : feedbackBytes float feedback ≤ maxFeedbackBytes
  patch_fits : Encodes cumulativePatch maxPatchBytes
  plan_fits : Encodes agent.plan maxTextBytes
  summary_fits : Encodes agent.summary maxTextBytes
  tests_fits : Encodes agent.tests maxTextBytes
  usage : 0 ≤ agent.modelCalls ∧ 0 ≤ agent.inputTokens ∧ 0 ≤ agent.outputTokens ∧ 0 ≤ agent.totalTokens

/-- What the agent contributed to a call. -/
def CompleteCall.agent (c : CompleteCall) : AgentResult where
  plan := c.plan
  summary := c.summary
  tests := c.tests
  modelCalls := c.modelCalls
  inputTokens := c.inputTokens
  outputTokens := c.outputTokens
  totalTokens := c.totalTokens

theorem validateDuration_ok {value : Int} (h : 0 ≤ value ∧ value ≤ maxDurationMs) (field : String) :
    validateDuration value field = .ok value := if_pos h

/-- What the validators take with sound durations is recordable. -/
theorem CompleteCall.recordable_of_validate {float : ℚ → String} {c : CompleteCall} {r : AttemptResult}
    (h : c.validate float = .ok r) : Recordable float c.feedback c.cumulativePatch c.agent := by
  have h : ∃ r, c.validate float = .ok r ∧ True := ⟨r, h, trivial⟩
  obtain ⟨patch, hpatch, h⟩ := exists_bind_ok.mp h
  obtain ⟨kept, hfeedback, h⟩ := exists_bind_ok.mp h
  obtain ⟨d, -, h⟩ := exists_bind_ok.mp h
  obtain ⟨j, -, r, h, -⟩ := exists_bind_ok.mp h
  have hfits : feedbackBytes float c.feedback ≤ maxFeedbackBytes := by
    by_contra hlarge
    rw [validateFeedback, if_neg hlarge] at hfeedback
    cases hfeedback
  split at h
  · cases h
  have h : ∃ r', _ = Except.ok r' ∧ True := ⟨r, h, trivial⟩
  obtain ⟨plan, hplan, h⟩ := exists_bind_ok.mp h
  obtain ⟨summary, hsummary, h⟩ := exists_bind_ok.mp h
  obtain ⟨tests, htests, r, hr, -⟩ := exists_bind_ok.mp h
  have husage : ¬(c.modelCalls < 0 ∨ c.inputTokens < 0 ∨ c.outputTokens < 0 ∨ c.totalTokens < 0) := by
    intro hneg
    rw [if_pos hneg] at hr
    cases hr
  exact ⟨hfits, (boundedText_ok_iff _ _ _).mp ⟨_, hpatch⟩, (boundedText_ok_iff _ _ _).mp ⟨_, hplan⟩,
    (boundedText_ok_iff _ _ _).mp ⟨_, hsummary⟩, (boundedText_ok_iff _ _ _).mp ⟨_, htests⟩,
    by simp only [agent]; omega⟩

/-- The validators take a recordable call with sound durations, and keep the outcome and the
feedback. -/
theorem CompleteCall.validate_recordable {float : ℚ → String} {c : CompleteCall}
    (hd : 0 ≤ c.durationMs ∧ c.durationMs ≤ maxDurationMs)
    (hj : 0 ≤ c.judgeDurationMs ∧ c.judgeDurationMs ≤ maxDurationMs)
    (hwithin : c.judgeDurationMs ≤ c.durationMs)
    (h : Recordable float c.feedback c.cumulativePatch c.agent) :
    ∃ r, c.validate float = .ok r ∧ r.passed = c.passed ∧ r.feedback = c.feedback := by
  have hnot : ¬(c.judgeDurationMs > c.durationMs ∧ c.durationMs ≠ 0) :=
    fun h => absurd h.1 (not_lt.mpr hwithin)
  obtain ⟨patch, hpatch⟩ := (boundedText_ok_iff _ _ "invalid attempt result").mpr h.patch_fits
  obtain ⟨plan, hplan⟩ := (boundedText_ok_iff _ _ "invalid attempt text").mpr h.plan_fits
  obtain ⟨summary, hsummary⟩ := (boundedText_ok_iff _ _ "invalid attempt text").mpr h.summary_fits
  obtain ⟨tests, htests⟩ := (boundedText_ok_iff _ _ "invalid attempt text").mpr h.tests_fits
  have husage : ¬(c.modelCalls < 0 ∨ c.inputTokens < 0 ∨ c.outputTokens < 0 ∨ c.totalTokens < 0) := by
    have := h.usage
    simp only [agent] at this
    omega
  simp only [agent] at hplan hsummary htests
  have hfeedback : validateFeedback float c.feedback = .ok c.feedback := if_pos h.feedback_fits
  rw [validate, hpatch, ok_bind, hfeedback, ok_bind, validateDuration_ok hd, ok_bind,
    validateDuration_ok hj, ok_bind, if_neg hnot, hplan, ok_bind, hsummary, ok_bind, htests, ok_bind,
    if_neg husage]
  exact ⟨_, rfl, rfl, rfl⟩

namespace Environment

variable (env : Environment)

theorem elapsedMs_bounds (start stop : ℚ) :
    0 ≤ env.rounding.elapsedMs start stop ∧ env.rounding.elapsedMs start stop ≤ maxDurationMs := by
  have hmax : maxDurationMs = 86400000 := by decide
  simp only [Rounding.elapsedMs, hmax]
  omega

/-- The checks are not timed longer than the attempt. -/
theorem judged_within :
    env.rounding.elapsedMs env.monotonic.judgeStarted env.monotonic.judgeFinished ≤
      env.rounding.elapsedMs env.monotonic.attemptStarted env.monotonic.attemptFinished := by
  have h := env.rounding.mono _ _ _ _ env.monotonic.started_le env.monotonic.judged_le
    env.monotonic.finished_le
  simp only [Rounding.elapsedMs]
  omega

/-- The arguments `run_attempt` passes to `complete_attempt`. -/
def completion (feedback : List JsonObj) (allPassed : Bool) (cumulativePatch : PyStr) (agent : AgentResult) :
    CompleteCall :=
  { passed := allPassed, feedback, cumulativePatch, plan := agent.plan, summary := agent.summary
    tests := agent.tests, modelCalls := agent.modelCalls, inputTokens := agent.inputTokens
    outputTokens := agent.outputTokens, totalTokens := agent.totalTokens
    durationMs := env.rounding.elapsedMs env.monotonic.attemptStarted env.monotonic.attemptFinished
    judgeDurationMs := env.rounding.elapsedMs env.monotonic.judgeStarted env.monotonic.judgeFinished }

theorem validate_completion {feedback : List JsonObj} {cumulativePatch : PyStr} {agent : AgentResult}
    (h : Recordable env.float feedback cumulativePatch agent) (allPassed : Bool) :
    ∃ r, (env.completion feedback allPassed cumulativePatch agent).validate env.float = .ok r ∧
      r.passed = allPassed ∧ r.feedback = feedback :=
  CompleteCall.validate_recordable (c := env.completion feedback allPassed cumulativePatch agent)
    (env.elapsedMs_bounds _ _) (env.elapsedMs_bounds _ _) env.judged_within h

/-! ## The checks -/

/-- What the checks return, in order. -/
def results (checks : List TestCheck) : Except Raised (List CommandResult) :=
  checks.zipIdx.mapM fun p => env.runCheck p.2 p.1

/-- The loop over the checks, from what it has gathered so far. -/
theorem judge_loop (l : List (TestCheck × Nat)) (feedback : List JsonObj) (allPassed : Bool) :
    l.foldlM (fun (r : List JsonObj × Bool) (p : TestCheck × Nat) => do
      let result ← env.runCheck p.2 p.1
      .ok (r.1 ++ [judgeFeedback p.1 result], r.2 && result.passed)) (feedback, allPassed) =
    (l.mapM fun p => env.runCheck p.2 p.1).map fun results =>
      (feedback ++ List.zipWith judgeFeedback (l.map Prod.fst) results,
        allPassed && results.all CommandResult.passed) := by
  induction l generalizing feedback allPassed with
  | nil => simp [pure, Except.pure, Except.map]
  | cons p l ih =>
    rw [List.foldlM_cons, List.mapM_cons]
    cases env.runCheck p.2 p.1 with
    | error e => rfl
    | ok r =>
      simp only [ok_bind, ih]
      cases l.mapM fun p => env.runCheck p.2 p.1 with
      | error e => rfl
      | ok results =>
        simp only [Except.map, bind, Except.bind, pure, Except.pure, List.map_cons, List.zipWith_cons_cons,
          List.all_cons, List.append_assoc, List.singleton_append, Bool.and_assoc]

theorem judge_eq (checks : List TestCheck) : env.judge checks = (env.results checks).map fun results =>
    (List.zipWith judgeFeedback checks results, results.all CommandResult.passed) := by
  have h := env.judge_loop checks.zipIdx [] true
  simpa [judge, results] using h

theorem length_results {checks : List TestCheck} {results : List CommandResult}
    (h : env.results checks = .ok results) : results.length = checks.length := by
  have hlength : ∀ (l : List (TestCheck × Nat)) (rs : List CommandResult),
      (l.mapM fun p => env.runCheck p.2 p.1) = .ok rs → rs.length = l.length := by
    intro l
    induction l with
    | nil =>
      intro rs hrs
      cases hrs
      rfl
    | cons p l ih =>
      intro rs hrs
      rw [List.mapM_cons] at hrs
      cases hp : env.runCheck p.2 p.1 with
      | error e => rw [hp] at hrs; cases hrs
      | ok r =>
        cases hl : l.mapM fun p => env.runCheck p.2 p.1 with
        | error e => rw [hp, hl] at hrs; cases hrs
        | ok rest =>
          rw [hp, hl] at hrs
          cases hrs
          rw [List.length_cons, List.length_cons, ih rest hl]
  rw [hlength _ _ h, List.length_zipIdx]

end Environment

theorem judgeFeedback_check (check : TestCheck) (r : CommandResult) :
    (judgeFeedback check r).get? "check" = some (.str check.name) := by
  simp [judgeFeedback, JsonObj.ofFields, Dict.get?_set]

theorem judgeFeedback_passed (check : TestCheck) (r : CommandResult) :
    (judgeFeedback check r).get? "passed" = some (.bool r.passed) := by
  simp [judgeFeedback, JsonObj.ofFields, Dict.get?_set]

theorem judgeFeedback_stdout (check : TestCheck) (r : CommandResult) :
    (judgeFeedback check r).get? "stdout" = some (.str r.stdout) := by
  simp [judgeFeedback, JsonObj.ofFields, Dict.get?_set]

theorem judged_of_mem_zip {checks : List TestCheck} {results : List CommandResult} {p : TestCheck × JsonObj}
    (h : p ∈ checks.zip (List.zipWith judgeFeedback checks results)) :
    ∃ r ∈ results, p.2 = judgeFeedback p.1 r := by
  induction checks generalizing results with
  | nil => exact absurd h List.not_mem_nil
  | cons check checks ih =>
    cases results with
    | nil => exact absurd h List.not_mem_nil
    | cons r results =>
      rcases List.mem_cons.mp h with rfl | hrest
      · exact ⟨r, List.mem_cons_self, rfl⟩
      · obtain ⟨r', hr', he⟩ := ih hrest
        exact ⟨r', List.mem_cons_of_mem r hr', he⟩

/-- The feedback of checks that all passed is a complete proof. -/
theorem passProof_judged {world : TestWorld} {results : List CommandResult}
    (hlength : results.length = world.checks.length) (hall : results.all CommandResult.passed = true) :
    hasCompletePassProof world (List.zipWith judgeFeedback world.checks results) = true := by
  simp only [hasCompletePassProof, List.length_zipWith, hlength, Nat.min_self, decide_true, Bool.true_and]
  apply List.all_eq_true.mpr
  intro p hp
  obtain ⟨r, hr, he⟩ := judged_of_mem_zip hp
  have hpassed : r.passed = true := List.all_eq_true.mp hall r hr
  have hname : Json.isStr p.1.name (some (.str p.1.name)) = true := by simp [Json.isStr]
  simp only [he, judgeFeedback_check, judgeFeedback_passed, hpassed, hname, Bool.and_self]

/-! ## The run -/

/-- A run of an attempt in which everything but the checks succeeds and the lease stays current. -/
structure Execution (env : Environment) (s : MemoryTestWorldStore) (attemptId ownerId : String)
    (given : Option TestWorldLease) where
  attempt : TestWorldAttempt
  lease : TestWorldLease
  claimed : MemoryTestWorldStore
  world : TestWorld
  previous : Option TestWorldAttempt
  agent : AgentResult
  cumulativePatch : PyStr
  attempt_found : s.getAttempt attemptId ownerId = some attempt
  lease_acquired : env.acquire s attempt attemptId ownerId given = .ok (.inl lease, claimed)
  world_found : (env.others claimed env.beforeWorld).getWorld attempt.worldId ownerId = some world
  prepared : env.prepareWorkspace world attempt = .ok ()
  previous_found : Environment.previousAttempt
    (env.others (env.others claimed env.beforeWorld) env.beforePrevious) attempt ownerId = .ok previous
  replayed : env.replay previous = .ok ()
  agent_ran : env.runAgent (attemptPrompt env.float world previous) = .ok agent
  captured : env.captureCumulativePatch = .ok cumulativePatch
  cleaned : env.cleanupWorkspace = .ok ()
  fresh : MemoryTestWorldStore.AllFresh env.D env.float claimed
    (env.beforeWorld ++ env.beforePrevious ++ env.beforeComplete)
  current : (env.others claimed (env.beforeWorld ++ env.beforePrevious ++ env.beforeComplete)).Current lease

/-- The attempt ended as the checks judged it, with their feedback, and is stored so. -/
def Judged (checks : List TestCheck) (results : List CommandResult)
    (r : Except Raised TestWorldAttempt × MemoryTestWorldStore) : Prop :=
  ∃ a, r.1 = .ok a ∧ a.status = (if results.all CommandResult.passed then .passed else .failed) ∧
    a.feedback = List.zipWith judgeFeedback checks results ∧ r.2.attempts.get? a.id = some a

namespace Environment

variable {env : Environment} {s : MemoryTestWorldStore} {attemptId ownerId : String}
  {given : Option TestWorldLease}

theorem others_append (s : MemoryTestWorldStore) (l m : List (Call × Time)) :
    env.others s (l ++ m) = env.others (env.others s l) m := List.foldl_append ..

/-- A run that ends in the handler ends the attempt as an error, if it ends it at all. -/
theorem handle_errors (s : MemoryTestWorldStore) (lease : TestWorldLease) (e : Raised) :
    ∀ a, (env.handle s lease e).1 = .ok a → a.status = .error := by
  intro a ha
  unfold handle at ha
  split at ha
  · cases ha
  · cases ha
  · have hfail : Yields (fun r => r.1.status = .error) (fun _ => True)
        ((env.others s env.beforeFail).failAttempt env.float lease env.failure env.clock) :=
      MemoryTestWorldStore.failAttempt_errors lease env.failure
    dsimp only at ha
    split at ha
    · next heq =>
      rw [heq] at hfail
      cases ha
      exact hfail
    · cases ha

/-- The lease is one of the attempt, and getting it loses nothing. -/
theorem acquire_yields (hs : s.Tied) {attempt : TestWorldAttempt}
    (hattempt : s.attempts.get? attemptId = some attempt) {lease : TestWorldLease}
    {claimed : MemoryTestWorldStore}
    (h : env.acquire s attempt attemptId ownerId given = .ok (.inl lease, claimed)) :
    s.Keeps claimed ∧ lease.attemptId = attempt.id := by
  cases given with
  | some g =>
    simp only [acquire] at h
    split at h
    · cases h
    · next hvalid =>
      cases h
      exact ⟨.refl hs, by simpa using (not_or.mp hvalid).1⟩
  | none =>
    have hkeeps : Yields (fun r => s.Keeps r.2) (fun _ => True)
        (s.claimAttempt attemptId env.workerId env.leaseSeconds env.clock) :=
      MemoryTestWorldStore.claimAttempt_keeps hs
    have hleases := s.claimAttempt_leases (t := env.clock) attemptId env.workerId env.leaseSeconds
    simp only [acquire] at h
    cases hclaim : s.claimAttempt attemptId env.workerId env.leaseSeconds env.clock with
    | error e =>
      rw [hclaim] at h
      cases h
    | ok r =>
      obtain ⟨found, store⟩ := r
      rw [hclaim] at h hkeeps hleases
      cases found with
      | none =>
        simp only [ok_bind] at h
        split at h
        · cases h
        · split at h <;> cases h
      | some found =>
        cases h
        obtain ⟨a, ha, hid⟩ := hleases lease rfl
        obtain rfl := Option.some.inj (hattempt.symm.trans ha)
        exact ⟨hkeeps, hid⟩

end Environment

/-- What `run_attempt` passes on to the store where everything but the checks succeeds. -/
theorem Execution.attemptResult_eq {env : Environment} {s : MemoryTestWorldStore}
    {attemptId ownerId : String} {given : Option TestWorldLease}
    (x : Execution env s attemptId ownerId given) :
    env.attemptResult (env.others (env.others x.claimed env.beforeWorld) env.beforePrevious) x.world
      x.attempt ownerId = (env.results x.world.checks).map fun results =>
        env.completion (List.zipWith judgeFeedback x.world.checks results)
          (results.all CommandResult.passed) x.cumulativePatch x.agent := by
  rw [Environment.attemptResult, x.prepared, ok_bind, x.previous_found, ok_bind, x.replayed, ok_bind,
    x.agent_ran, ok_bind, x.captured, ok_bind, env.judge_eq]
  cases env.results x.world.checks with
  | error e => rfl
  | ok results =>
    simp only [Except.map, ok_bind, x.cleaned]
    rfl

/-- The attempt is completed against the checks that were judged. -/
theorem Execution.checks_eq {env : Environment} {s : MemoryTestWorldStore}
    {attemptId ownerId : String} {given : Option TestWorldLease} (hs : s.Tied)
    (x : Execution env s attemptId ownerId given) {a : TestWorldAttempt} {w : TestWorld}
    (ha : (env.others x.claimed (env.beforeWorld ++ env.beforePrevious ++ env.beforeComplete)).attempts.get?
      x.lease.attemptId = some a)
    (hw : (env.others x.claimed (env.beforeWorld ++ env.beforePrevious ++ env.beforeComplete)).worlds.get?
      a.worldId = some w) : w.checks = x.world.checks := by
  have hattempt := (Option.filter_eq_some_iff.mp x.attempt_found).1
  obtain ⟨hkeeps, hid⟩ := Environment.acquire_yields hs hattempt x.lease_acquired
  have hkept := hkeeps.trans (MemoryTestWorldStore.foldl_keeps hkeeps.1 _ x.fresh)
  have hstored : s.attempts.get? x.lease.attemptId = some x.attempt := by
    rw [hid, (hs.attempt _ _ hattempt).1]
    exact hattempt
  obtain ⟨b, hb, hbc⟩ := hkept.2.attempt _ _ hstored
  obtain rfl : b = a := Option.some.inj (hb.symm.trans ha)
  simp only [TestWorldAttempt.challenge, Prod.mk.injEq] at hbc
  have hfresh := x.fresh
  rw [List.append_assoc] at hfresh hw
  obtain ⟨hfresh1, hfresh2⟩ := hfresh.append
  have hbefore := MemoryTestWorldStore.foldl_keeps hkeeps.1 _ hfresh1
  have hafter := MemoryTestWorldStore.foldl_keeps hbefore.1 _ hfresh2
  obtain ⟨v, hv, hvc⟩ := hafter.2.world _ _ (Option.filter_eq_some_iff.mp x.world_found).1
  rw [Environment.others_append, hbc.2.1] at hw
  obtain rfl : v = w := Option.some.inj (hv.symm.trans hw)
  simp only [TestWorld.challenge, Prod.mk.injEq] at hvc
  exact hvc.2.1

/-- A recordable result is recorded as it was judged. -/
theorem Execution.completes {env : Environment} {s : MemoryTestWorldStore}
    {attemptId ownerId : String} {given : Option TestWorldLease} (hs : s.Tied)
    (x : Execution env s attemptId ownerId given) {results : List CommandResult}
    (hresults : env.results x.world.checks = .ok results)
    (hrecordable : Recordable env.float (List.zipWith judgeFeedback x.world.checks results)
      x.cumulativePatch x.agent) :
    ∃ a s', (env.others x.claimed (env.beforeWorld ++ env.beforePrevious ++ env.beforeComplete)).completeAttempt
        env.float x.lease (env.completion (List.zipWith judgeFeedback x.world.checks results)
          (results.all CommandResult.passed) x.cumulativePatch x.agent) env.clock = .ok (a, s') ∧
      a.status = (if results.all CommandResult.passed then .passed else .failed) ∧
      a.feedback = List.zipWith judgeFeedback x.world.checks results ∧ s'.attempts.get? a.id = some a := by
  obtain ⟨r, hvalid, hpassed, hfeedback⟩ :=
    env.validate_completion hrecordable (results.all CommandResult.passed)
  have hattempt := (Option.filter_eq_some_iff.mp x.attempt_found).1
  obtain ⟨hkeeps, -⟩ := Environment.acquire_yields hs hattempt x.lease_acquired
  have htied := (MemoryTestWorldStore.foldl_keeps hkeeps.1 _ x.fresh).1
  obtain ⟨a, s', hdone, hstored⟩ := MemoryTestWorldStore.completeAttempt_current (t := env.clock) htied
    x.current hvalid fun a w ha hw hall => by
      have hchecks := x.checks_eq hs ha hw
      have hproof := passProof_judged (env.length_results hresults) (hpassed ▸ hall)
      rw [hfeedback]
      simpa only [hasCompletePassProof, hchecks] using hproof
  refine ⟨a.judged r env.clock, s', hdone, ?_, hfeedback, hstored⟩
  rw [← hpassed]
  rfl

/-- On a tied store, a run ends as judged exactly when its result is recordable. -/
theorem Execution.judged_iff {env : Environment} {s : MemoryTestWorldStore}
    {attemptId ownerId : String} {given : Option TestWorldLease} (hs : s.Tied)
    (x : Execution env s attemptId ownerId given) :
    (∃ results, env.results x.world.checks = .ok results ∧
      Judged x.world.checks results (env.runAttempt s attemptId ownerId given)) ↔
    ∃ results, env.results x.world.checks = .ok results ∧
      Recordable env.float (List.zipWith judgeFeedback x.world.checks results) x.cumulativePatch x.agent := by
  have hattempt := (Option.filter_eq_some_iff.mp x.attempt_found).1
  obtain ⟨hkeeps, hid⟩ := Environment.acquire_yields hs hattempt x.lease_acquired
  have hrun : env.runAttempt s attemptId ownerId given =
      env.runLeased x.claimed x.attempt ownerId x.lease := by
    rw [Environment.runAttempt, x.attempt_found]
    simp only [x.lease_acquired]
  have hcompleted := x.attemptResult_eq
  rw [hrun, Environment.runLeased]
  simp only [x.world_found, hcompleted]
  cases hresults : env.results x.world.checks with
  | error e => simp
  | ok results =>
    simp only [Except.map, Except.ok.injEq, exists_eq_left', ← Environment.others_append]
    constructor
    · intro hjudged
      obtain ⟨a, hdone, hstatus, -, -⟩ := hjudged
      split at hdone
      · next hcomplete =>
        obtain ⟨r, hvalid, -⟩ := (exists_bind_ok (P := fun _ => True)).mp ⟨_, hcomplete, trivial⟩
        exact CompleteCall.recordable_of_validate hvalid
      · have herror := Environment.handle_errors _ _ _ a hdone
        rw [herror] at hstatus
        split at hstatus <;> cases hstatus
    · intro hrecordable
      obtain ⟨a, s', hdone, hjudged⟩ := x.completes hs hresults hrecordable
      rw [hdone]
      exact ⟨a, rfl, hjudged⟩

/-- A text in a feedback item takes up room in the record. -/
theorem size_le_feedbackBytes (float : ℚ → String) {feedback : List JsonObj} {item : JsonObj}
    {k text : String} (hitem : item ∈ feedback) (hfield : (k, Json.str text) ∈ item.entries) :
    text.utf8ByteSize ≤ feedbackBytes float feedback := by
  have hfields : ∀ fields : List (String × Json), (k, Json.str text) ∈ fields →
      (k, Json.quote text) ∈ Json.dumpsFields float fields := by
    intro fields
    induction fields with
    | nil => exact fun h => by cases h
    | cons p fields ih =>
      intro h
      rw [Json.dumpsFields]
      rcases List.mem_cons.mp h with rfl | h
      · exact List.mem_cons_self
      · exact List.mem_cons_of_mem _ (ih h)
  have hitems : ∀ items : List Json, ∀ value ∈ items,
      Json.dumps float value ∈ Json.dumpsItems float items := by
    intro items
    induction items with
    | nil => exact fun _ h => by cases h
    | cons v items ih =>
      intro value h
      rw [Json.dumpsItems]
      rcases List.mem_cons.mp h with rfl | h
      · exact List.mem_cons_self
      · exact List.mem_cons_of_mem _ (ih value h)
  have hquote := Json.size_le_quote text
  have hobject : (Json.quote text).utf8ByteSize ≤ (Json.dumps float (.obj item.entries)).utf8ByteSize := by
    have hmem : Json.quote k ++ ":" ++ Json.quote text ∈
        ((Json.dumpsFields float item.entries).insertionSort Json.keyBefore).map
          fun p => Json.quote p.1 ++ ":" ++ p.2 :=
      List.mem_map.mpr ⟨_, (List.mem_insertionSort _).mpr (hfields _ hfield), rfl⟩
    have hjoin := Json.size_le_intercalate "," hmem
    rw [Json.dumps]
    simp only [String.utf8ByteSize_append] at hjoin ⊢
    omega
  have hjoin := Json.size_le_intercalate ","
    (hitems _ _ (List.mem_map_of_mem (f := fun item : JsonObj => Json.obj item.entries) hitem))
  rw [feedbackBytes, Json.dumps]
  simp only [String.utf8ByteSize_append]
  omega

/-- The store with the claimed attempt. -/
def claimedStore : MemoryTestWorldStore :=
  MemoryTestWorldStore.history zeroDigests (fun _ => "0") claimedHistory

/-- Whole milliseconds. -/
def floorMs : Rounding where
  ms start stop := ⌊(stop - start) * 1000⌋
  mono a b c d hab _ hcd := Int.floor_le_floor (by linarith)

/-- An environment in which the only check returns this result while a heartbeat renews the lease. -/
def sampleEnvironment (r : CommandResult) : Environment where
  D := zeroDigests
  float _ := "0"
  rounding := floorMs
  workerId := "core-1"
  leaseSeconds := 60
  prepareWorkspace _ _ := .ok ()
  applyPreviousPatch _ := .ok ()
  runAgent _ := .ok { plan := [], summary := [], tests := [] }
  captureCumulativePatch := .ok []
  runCheck _ _ := .ok r
  cleanupWorkspace := .ok ()
  monotonic := ⟨0, 1, 2, 3, 3, by decide, by decide, by decide⟩
  clock := 130
  beforeComplete := [(.renewAttempt claimedLease 60, 120)]

theorem claimed_attempt : (claimedStore.getAttempt claimedLease.attemptId "owner").isSome = true := by
  decide +kernel

/-- The claimed attempt. -/
def claimedAttempt : TestWorldAttempt :=
  (claimedStore.getAttempt claimedLease.attemptId "owner").get claimed_attempt

theorem claimed_world : (claimedStore.getWorld claimedAttempt.worldId "owner").isSome = true := by
  decide +kernel

/-- The store after the heartbeat. -/
def renewedStore : MemoryTestWorldStore :=
  claimedStore.after zeroDigests (fun _ => "0") (.renewAttempt claimedLease 60, 120)

theorem renewedStore_current : renewedStore.Current claimedLease := by
  have hclaim : (renewedStore.claims.get? claimedLease.attemptId).any (sameLease · claimedLease) = true := by
    decide +kernel
  have hrun : (renewedStore.attempts.get? claimedLease.attemptId).any (·.status == .running) = true := by
    decide +kernel
  obtain ⟨current, hcurrent, hsame⟩ := (Option.any_eq_true _ _).mp hclaim
  obtain ⟨attempt, hattempt, hstatus⟩ := (Option.any_eq_true _ _).mp hrun
  exact ⟨current, attempt, hcurrent, hsame, hattempt, by simpa using hstatus⟩

theorem previousAttempt_first (s : MemoryTestWorldStore) {attempt : TestWorldAttempt} (ownerId : String)
    (h : attempt.previousAttemptId = none) : Environment.previousAttempt s attempt ownerId = .ok none := by
  rw [Environment.previousAttempt, h]
  cases attempt.mode <;> rfl

theorem acquire_given (env : Environment) (s : MemoryTestWorldStore) {attempt : TestWorldAttempt}
    (attemptId : String) {ownerId : String} {lease : TestWorldLease}
    (h : ¬(lease.attemptId ≠ attempt.id ∨ lease.worldId ≠ attempt.worldId ∨ lease.ownerId ≠ ownerId ∨
        lease.workerId ≠ env.workerId ∨ lease.generation ≤ 0 ∨ attempt.status ≠ .running)) :
    env.acquire s attempt attemptId ownerId (some lease) = .ok (.inl lease, s) := if_neg h

theorem claimedLease_valid : ¬(claimedLease.attemptId ≠ claimedAttempt.id ∨
    claimedLease.worldId ≠ claimedAttempt.worldId ∨ claimedLease.ownerId ≠ "owner" ∨
    claimedLease.workerId ≠ "core-1" ∨ claimedLease.generation ≤ 0 ∨
    claimedAttempt.status ≠ .running) := by decide +kernel

/-- The run of the claimed attempt. -/
def sampleExecution (r : CommandResult) :
    Execution (sampleEnvironment r) claimedStore claimedLease.attemptId "owner" (some claimedLease) where
  attempt := claimedAttempt
  lease := claimedLease
  claimed := claimedStore
  world := (claimedStore.getWorld claimedAttempt.worldId "owner").get claimed_world
  previous := none
  agent := { plan := [], summary := [], tests := [] }
  cumulativePatch := []
  attempt_found := (Option.some_get _).symm
  lease_acquired := acquire_given _ _ _ claimedLease_valid
  world_found := (Option.some_get _).symm
  prepared := rfl
  previous_found := previousAttempt_first _ _ (by decide +kernel)
  replayed := rfl
  agent_ran := rfl
  captured := rfl
  cleaned := rfl
  fresh := ⟨trivial, trivial⟩
  current := renewedStore_current

theorem sampleChecks (r : CommandResult) : (sampleExecution r).world.checks = [sampleCheck] := by
  have h : ((claimedStore.getWorld claimedAttempt.worldId "owner").get claimed_world).checks =
      [sampleCheck] := by decide +kernel
  exact h

/-- The check of the sample world returned once. -/
theorem sampleResults (r : CommandResult) :
    (sampleEnvironment r).results (sampleExecution r).world.checks = .ok [r] := by
  rw [sampleChecks]
  rfl

/-- So many characters of output. -/
def longOutput (n : Nat) : String := String.ofList (List.replicate n 'a')

theorem size_longOutput (n : Nat) : (longOutput n).utf8ByteSize = n := by
  induction n with
  | zero => rfl
  | succ n ih =>
    rw [longOutput, List.replicate_succ, utf8ByteSize_ofList_cons]
    rw [longOutput] at ih
    rw [ih, show 'a'.utf8Size = 1 from rfl, Nat.add_comm]

end LilTweak.Worlds
