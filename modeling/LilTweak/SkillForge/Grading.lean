import LilTweak.SkillForge.Evaluation
import LilTweak.SkillForge.Extraction
import Mathlib

/-!
# What a passed report says

A report that passed has a result for each case of its suite, and behind each result stands an observation
that answered the request of that case, in a session of its own, with the status and the output the case
asks for and with no tool the case does not offer.
-/

namespace LilTweak.SkillForge

open LilTweak.Lib

section
variable {sha : Bytes → List Char}

/-- An observation that answers the request of a case as the case asks. -/
structure Sanctioned (p : Package sha) (digest : List Char) (c : Case) (turn : Turn) (o : Observation) : Prop where
  answered : turn.answer (requestOf p digest c turn) = .observation o
  digest : o.requestDigest = some (((requestOf p digest c turn).digest sha).map CodePoint.ofChar)
  nonce : o.nonce = some (turn.nonce.map CodePoint.ofChar)
  session : ∃ session, o.sessionId = some session ∧ session ≠ []
  status : o.status = some (expectedStatus c)
  output : o.output = some c.expected
  tools : ∃ used, o.usedTools = some used ∧
    ∀ tool ∈ used, ∃ requirement ∈ p.requirements, tool = some (requirement.map CodePoint.ofChar)
  untouched : c.kind ≠ PyStr.ofText "positive" → o.usedTools = some []

theorem not_failed {reason : String} {sessions : List PyStr} (h : (failed reason sessions).reason = "passed")
    (hreason : reason ≠ "passed") : False := hreason h

/-- The tools a case offers are required by the package. -/
theorem toolsOf_subset (p : Package sha) (c : Case) : toolsOf p c ⊆ p.requirements := by
  unfold toolsOf
  split
  · exact List.tail_subset p.requirements
  · exact List.Subset.refl _

theorem used_of_not_exceeds {tools : List (List Char)} {used : Option (List (Option PyStr))}
    (h : exceedsTools tools used = false) : ∃ items, used = some items ∧
      ∀ tool ∈ items, ∃ t ∈ tools, tool = some (t.map CodePoint.ofChar) := by
  cases used with
  | none => cases h
  | some items =>
    refine ⟨items, rfl, fun tool htool => ?_⟩
    have hone := List.any_eq_false.mp h tool htool
    cases tool with
    | none => exact absurd rfl hone
    | some tool =>
      simp only [Bool.not_eq_true, Bool.not_eq_false', List.contains_iff_mem, List.mem_map] at hone
      obtain ⟨t, ht, rfl⟩ := hone
      exact ⟨t, ht, rfl⟩

/-- Only an answer as the case asks passes. -/
theorem gradeOutcome_passed {c : Case} {o : Observation} (h : gradeOutcome c o = "passed") :
    o.status = some (expectedStatus c) ∧ o.output = some c.expected ∧
      (c.kind ≠ PyStr.ofText "positive" → o.usedTools = some []) := by
  unfold gradeOutcome at h
  split at h
  · exact absurd h (by decide)
  split at h
  · exact absurd h (by decide)
  next hmatch huntouched =>
  rw [not_or, not_not, not_not] at hmatch
  refine ⟨hmatch.1, hmatch.2, fun hkind => ?_⟩
  by_contra hused
  exact huntouched ⟨hkind, hused⟩

/-- An observation that passed: it is bound to its request, its session is new, and it is what the case asks for. -/
theorem gradeObservation_passed {request : Request} {c : Case} {sessions : List PyStr} {o : Observation}
    (h : (gradeObservation sha request c sessions o).reason = "passed") :
    ∃ session, o.sessionId = some session ∧ session ≠ [] ∧ session ∉ sessions ∧
      (gradeObservation sha request c sessions o).sessions = sessions ++ [session] ∧
      o.requestDigest = some ((request.digest sha).map CodePoint.ofChar) ∧
      o.nonce = some (request.nonce.map CodePoint.ofChar) ∧ exceedsTools request.tools o.usedTools = false ∧
      gradeOutcome c o = "passed" := by
  unfold gradeObservation at h ⊢
  split at h
  · exact (not_failed h (by decide)).elim
  next hbound =>
  rw [if_neg hbound]
  rw [not_or, not_not, not_not] at hbound
  cases hsession : o.sessionId with
  | none =>
    rw [hsession] at h
    exact (not_failed h (by decide)).elim
  | some session =>
    rw [hsession] at h
    dsimp only at h ⊢
    split at h
    · exact (not_failed h (by decide)).elim
    next hfresh =>
    rw [if_neg hfresh]
    rw [not_or, not_or] at hfresh
    split at h
    · exact (not_failed h (by decide)).elim
    next hexceeds =>
    rw [if_neg hexceeds]
    rw [Bool.not_eq_true] at hexceeds
    cases houtput : o.output with
    | none =>
      rw [houtput] at h
      exact (not_failed h (by decide)).elim
    | some output =>
      rw [houtput] at h
      dsimp only at h ⊢
      cases hchars : output.mapM CodePoint.char? with
      | none =>
        rw [hchars] at h
        exact (not_failed h (by decide)).elim
      | some outputChars =>
        rw [hchars] at h
        dsimp only at h ⊢
        split at h
        · exact (not_failed h (by decide)).elim
        next hlong =>
        rw [if_neg hlong]
        cases hsessionChars : session.mapM CodePoint.char? with
        | none =>
          rw [hsessionChars] at h
          exact (not_failed h (by decide)).elim
        | some sessionChars =>
          rw [hsessionChars] at h
          exact ⟨session, rfl, hfresh.1, hfresh.2.2, rfl, hbound.1, hbound.2, hexceeds, h⟩

/-- A turn that passed. -/
theorem gradeTurn_passed {p : Package sha} {digest : List Char} {c : Case} {sessions : List PyStr} {turn : Turn}
    (h : (gradeTurn sha (requestOf p digest c turn) c sessions turn).reason = "passed") :
    ∃ o session, Sanctioned p digest c turn o ∧ o.sessionId = some session ∧ session ∉ sessions ∧
      (gradeTurn sha (requestOf p digest c turn) c sessions turn).sessions = sessions ++ [session] := by
  unfold gradeTurn at h ⊢
  split at h
  · exact (not_failed h (by decide)).elim
  next hexpired =>
  rw [if_neg hexpired]
  cases hanswer : turn.answer (requestOf p digest c turn) with
  | timeout =>
    rw [hanswer] at h
    exact (not_failed h (by decide)).elim
  | raised =>
    rw [hanswer] at h
    exact (not_failed h (by decide)).elim
  | other =>
    rw [hanswer] at h
    exact (not_failed h (by decide)).elim
  | observation o =>
    rw [hanswer] at h
    obtain ⟨session, hsession, hne, hfresh, hsessions, hdigest, hnonce, hexceeds, hpassed⟩ := gradeObservation_passed h
    obtain ⟨used, hused, htools⟩ := used_of_not_exceeds hexceeds
    obtain ⟨hstatus, hexpected, huntouched⟩ := gradeOutcome_passed hpassed
    refine ⟨o, session, ?_, hsession, hfresh, hsessions⟩
    exact
      { answered := hanswer
        digest := hdigest
        nonce := hnonce
        session := ⟨session, hsession, hne⟩
        status := hstatus
        output := hexpected
        tools := ⟨used, hused, fun tool htool => by
          obtain ⟨t, ht, heq⟩ := htools tool htool
          exact ⟨t, toolsOf_subset p c ht, heq⟩⟩
        untouched := huntouched }

/-- A run that passed, by induction on the cases: the sessions of the rest are fresh to those seen before. -/
theorem runCases_passed {p : Package sha} {digest : List Char} {turns : ℕ → Turn} {cases : List Case} :
    ∀ {i : ℕ} {sessions : List PyStr}, (runCases p digest turns i sessions cases).length = cases.length →
      (∀ r ∈ runCases p digest turns i sessions cases, r.passed = true) →
      (runCases p digest turns i sessions cases).map Result.caseId = cases.map Case.caseId ∧
      ∃ os : List Observation, os.length = cases.length ∧ (os.map Observation.sessionId).Nodup ∧
        (∀ o ∈ os, ∀ session, o.sessionId = some session → session ∉ sessions) ∧
        ∀ k c o, cases[k]? = some c → os[k]? = some o → Sanctioned p digest c (turns (i + k)) o := by
  induction cases with
  | nil => exact fun _ _ => ⟨rfl, [], rfl, List.nodup_nil, fun _ h => absurd h List.not_mem_nil, fun k c o h => by simp at h⟩
  | cons c rest ih =>
    intro i sessions hlength hpassed
    unfold runCases at hlength hpassed ⊢
    dsimp only at hlength hpassed ⊢
    obtain ⟨hfirst, hrest⟩ := List.forall_mem_cons.mp hpassed
    have hreason := of_decide_eq_true hfirst
    obtain ⟨o, session, hsanctioned, hsession, hfresh, hsessions⟩ := gradeTurn_passed hreason
    rw [if_pos hreason, hsessions] at hlength hrest ⊢
    obtain ⟨hids, os, hcount, hnodup, hnew, heach⟩ := ih (Nat.succ.inj hlength) hrest
    refine ⟨by rw [List.map_cons, List.map_cons, hids], o :: os, congrArg Nat.succ hcount, ?_, ?_, ?_⟩
    · rw [List.map_cons, List.nodup_cons]
      refine ⟨fun hmem => ?_, hnodup⟩
      obtain ⟨o', ho', heq⟩ := List.mem_map.mp hmem
      exact hnew o' ho' session (heq.trans hsession) (List.mem_append_right _ List.mem_cons_self)
    · intro o' ho' session' hsession'
      obtain rfl | ho' := List.mem_cons.mp ho'
      · rw [hsession] at hsession'
        rwa [← Option.some.inj hsession']
      · exact fun hmem => hnew o' ho' session' hsession' (List.mem_append_left _ hmem)
    · intro k c' o' hc ho
      cases k with
      | zero =>
        obtain rfl : c = c' := by simpa using hc
        obtain rfl : o = o' := by simpa using ho
        exact hsanctioned
      | succ k =>
        rw [List.getElem?_cons_succ] at hc ho
        rw [Nat.add_succ, ← Nat.succ_add]
        exact heach k c' o' hc ho

/-- What a report that passed says about its suite and its agent. -/
theorem evaluate_passed {p : Package sha} {cases : List Case} {adapter : Adapter} {role : String} {timeout : Option ℚ}
    {turns : ℕ → Turn} {report : Report} (h : evaluate p cases adapter role timeout turns = .ok report)
    (hpassed : report.passed = true) :
    p.digest = .ok report.packageDigest ∧
    report.results.map Result.caseId = cases.map Case.caseId ∧
    (∃ os : List Observation, os.length = cases.length ∧ (os.map Observation.sessionId).Nodup ∧
      ∀ k c o, cases[k]? = some c → os[k]? = some o → Sanctioned p report.packageDigest c (turns k) o) ∧
    (∀ tool ∈ p.requirements, tool.map CodePoint.ofChar ∈ adapter.capabilities) ∧
    (adapter.agentId = p.originId.map CodePoint.ofChar ↔ role = "internal") := by
  unfold evaluate at h
  obtain ⟨digest, hdigest, h⟩ := of_bind_ok h
  obtain ⟨_, hcases, h⟩ := of_bind_ok h
  obtain ⟨_, h⟩ := unless_ok h
  obtain ⟨_, h⟩ := unless_ok h
  obtain ⟨_, h⟩ := unless_ok h
  obtain ⟨_, _, h⟩ := of_bind_ok h
  obtain ⟨_, h⟩ := unless_ok h
  obtain ⟨hidentity, h⟩ := unless_ok h
  obtain ⟨hcapable, h⟩ := unless_ok h
  obtain rfl := Except.ok.inj h
  rw [Report.passed, Bool.and_eq_true, decide_eq_true_eq, List.all_eq_true] at hpassed
  obtain ⟨hids, os, hcount, hnodup, _, heach⟩ := runCases_passed hpassed.1 hpassed.2
  refine ⟨hdigest, hids, ⟨os, hcount, hnodup, fun k c o hc ho => ?_⟩, fun tool htool => ?_, ?_⟩
  · have hk := heach k c o hc ho
    rwa [Nat.zero_add] at hk
  · rw [Bool.not_eq_false, List.all_eq_true] at hcapable
    exact List.contains_iff_mem.mp (hcapable tool htool)
  · rw [not_not, decide_eq_decide] at hidentity
    exact hidentity

end

/-! ## The skill that sorts rows -/

theorem sortManifest_read : (parseBytes (encodeUtf8 sortManifest) >>= readManifest).toOption.any (fun m =>
    m.name = "sort".toList ∧ m.version = "1.0.0".toList ∧ m.requirements = ["sort".toList] ∧
      m.agentId = "ada".toList) = true := by
  rw [parseBytes_encoded]
  unfold sortManifest
  repeat rw [String.toList_ofList]
  decide +kernel

theorem sortFiles_package :
    checkPackage sortSha "sort".toList "1.0.0".toList ["sort".toList] "ada".toList sortFiles = .ok () := by
  have hmanifest : fileAt "manifest.json" sortFiles = .ok (encodeUtf8 sortManifest) := rfl
  unfold checkPackage
  rw [sortFiles_verified, ok_bind, hmanifest, ok_bind]
  have h := sortManifest_read
  cases hread : parseBytes (encodeUtf8 sortManifest) >>= readManifest with
  | error e => rw [hread] at h; cases h
  | ok m =>
    rw [hread] at h
    have hm := of_decide_eq_true h
    rw [ok_bind, if_neg]
    simp [hm.1, hm.2.1, hm.2.2.1, hm.2.2.2]

/-- The package of the skill that sorts rows. -/
def sortPackage : Package sortSha := ⟨_, _, _, _, sortFiles, sortFiles_package⟩

/-- A suite for it. -/
def sortCases : List Case :=
  [⟨PyStr.ofText "rows", PyStr.ofText "z\ny", PyStr.ofText "y\nz", PyStr.ofText "positive"⟩,
   ⟨PyStr.ofText "no-rows", PyStr.ofText "-", PyStr.ofText "no rows", PyStr.ofText "negative"⟩,
   ⟨PyStr.ofText "no-tool", PyStr.ofText "x\nw", PyStr.ofText "no sort", PyStr.ofText "missing_tool"⟩]

def sortAdapter : Adapter := ⟨PyStr.ofText "ada", [PyStr.ofText "sort"], isolationContract⟩

/-- The turns of an agent that answers each case as it asks. -/
def sortTurn (i : ℕ) : Turn :=
  { nonce := ["00000000000000000000000000000001", "00000000000000000000000000000002",
      "00000000000000000000000000000003"].map String.toList |>.getD i []
    expired := false
    remaining := "30.0".toList
    answer := fun r => .observation
      { requestDigest := some ((r.digest sortSha).map CodePoint.ofChar)
        nonce := some (r.nonce.map CodePoint.ofChar)
        sessionId := some (["session-1", "session-2", "session-3"].map PyStr.ofText |>.getD i [])
        status := some (if i = 0 then PyStr.ofText "ok" else PyStr.ofText "blocked")
        output := some ((sortCases.map Case.expected).getD i [])
        usedTools := some (if i = 0 then [some (PyStr.ofText "sort")] else []) } }

/-- A case passes on an answer bound to its request, in a fresh session, with the outcome it expects. -/
theorem runCases_passes {p : Package sha} {digest : List Char} {turns : ℕ → Turn} {i : ℕ} {sessions : List PyStr} {c : Case}
    {rest : List Case} {o : Observation} {session output : PyStr} {sessionChars outputChars : List Char}
    (hexpired : (turns i).expired = false)
    (hanswer : (turns i).answer (requestOf p digest c (turns i)) = .observation o)
    (hdigest : o.requestDigest = some (((requestOf p digest c (turns i)).digest sha).map CodePoint.ofChar))
    (hnonce : o.nonce = some ((turns i).nonce.map CodePoint.ofChar)) (hsession : o.sessionId = some session)
    (hfresh : ¬(session = [] ∨ 256 < session.length ∨ session ∈ sessions))
    (htools : exceedsTools (toolsOf p c) o.usedTools = false) (houtput : o.output = some output)
    (houtputChars : output.mapM CodePoint.char? = some outputChars)
    (hsize : (encodeUtf8 outputChars).length ≤ maxOutputBytes)
    (hsessionChars : session.mapM CodePoint.char? = some sessionChars) (houtcome : gradeOutcome c o = "passed") :
    (runCases p digest turns i sessions (c :: rest)).map Result.passed =
      true :: (runCases p digest turns (i + 1) (sessions ++ [session]) rest).map Result.passed := by
  have hgrade : gradeTurn sha (requestOf p digest c (turns i)) c sessions (turns i) =
      ⟨"passed", sha (encodeUtf8 sessionChars), sha (encodeUtf8 outputChars), sessions ++ [session]⟩ := by
    unfold gradeTurn
    rw [hexpired, if_neg Bool.false_ne_true, hanswer]
    show gradeObservation sha (requestOf p digest c (turns i)) c sessions o = _
    unfold gradeObservation
    rw [hdigest, hnonce, if_neg (by simp [requestOf]), hsession]
    dsimp only
    rw [if_neg hfresh, if_neg (by simp [requestOf, htools]), houtput]
    dsimp only
    rw [houtputChars]
    dsimp only
    rw [if_neg (by omega), hsessionChars, houtcome]
  rw [runCases, hgrade]
  rfl

/-- Every answer to the suite passes, whatever the digests of the requests are. -/
theorem sort_results : (runCases sortPackage sortDigest sortTurn 0 [] sortCases).map Result.passed = [true, true, true] := by
  unfold sortCases
  rw [runCases_passes rfl rfl rfl rfl rfl (by decide) (by decide +kernel) rfl rfl (by decide +kernel) rfl (by decide +kernel),
    runCases_passes rfl rfl rfl rfl rfl (by decide) (by decide +kernel) rfl rfl (by decide +kernel) rfl (by decide +kernel),
    runCases_passes rfl rfl rfl rfl rfl (by decide) (by decide +kernel) rfl rfl (by decide +kernel) rfl (by decide +kernel)]
  rfl

theorem sort_evaluates :
    (evaluate sortPackage sortCases sortAdapter "internal" (some 30) sortTurn).toOption.any Report.passed = true := by
  have hdigest : sortPackage.digest = .ok sortDigest := sortFiles_verified
  have hexamples : fileAt "tests/examples.json" sortPackage.files = .ok (encodeUtf8 sortExamples) := rfl
  have hvalid : validateCases sortPackage sortCases = .ok () := by
    unfold validateCases Package.publicInputs
    rw [hexamples, ok_bind, parseBytes_encoded]
    decide +kernel
  have hagent : identifier (.str sortAdapter.agentId) = .ok "ada".toList := by decide +kernel
  unfold evaluate
  rw [hdigest, ok_bind, hvalid, ok_bind, if_neg (by decide), if_neg (by decide), if_neg (by decide), hagent, ok_bind,
    if_neg (by decide), if_neg (by decide), if_neg (by decide)]
  rw [Except.toOption, Option.any_some, Report.passed, Bool.and_eq_true, decide_eq_true_eq, List.all_eq_true]
  constructor
  · have hlength := congrArg List.length sort_results
    rwa [List.length_map] at hlength
  · intro r hr
    have hpassed := List.mem_map_of_mem (f := Result.passed) hr
    rw [sort_results] at hpassed
    simpa using hpassed

theorem evaluate_passed_sort : ∃ report,
    evaluate sortPackage sortCases sortAdapter "internal" (some 30) sortTurn = .ok report ∧ report.passed = true ∧
    sortPackage.digest = .ok report.packageDigest ∧ report.results.map Result.caseId = sortCases.map Case.caseId ∧
    (∃ os : List Observation, os.length = sortCases.length ∧ (os.map Observation.sessionId).Nodup ∧
      ∀ k c o, sortCases[k]? = some c → os[k]? = some o →
        Sanctioned sortPackage report.packageDigest c (sortTurn k) o) ∧
    (∀ tool ∈ sortPackage.requirements, tool.map CodePoint.ofChar ∈ sortAdapter.capabilities) ∧
    (sortAdapter.agentId = sortPackage.originId.map CodePoint.ofChar ↔ "internal" = "internal") := by
  have hpassed := sort_evaluates
  cases hreport : evaluate sortPackage sortCases sortAdapter "internal" (some 30) sortTurn with
  | error e =>
    rw [hreport] at hpassed
    cases hpassed
  | ok report =>
    rw [hreport] at hpassed
    exact ⟨report, rfl, hpassed, evaluate_passed hreport hpassed⟩

end LilTweak.SkillForge
