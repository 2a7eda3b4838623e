import LilTweak.Worker.Guarded

/-!
# The row of an engineering job over a run of the Worker

Any requests, in any order and interleaved step by step, with a core that may answer anything.
Every state of such a run is sound, and a later state undoes nothing of an earlier one; what that
says of the approval, the core's revision, the frozen digest and proposal, the mirrored
evidence and terminal states is collected here.
-/

namespace LilTweak.Worker

open LilTweak.Lib

variable (r : Runtime)

/-- Every request keeps to the discipline from a sound state on. -/
theorem Request.program_safe (request : Request) {w : World} (hw : w.Sound) :
    (request.program r).Safe discipline.protocol (fun _ _ => True) w := by
  have safe : ∀ {m : Request.Run Response}, Asks m Any w →
      Prog.Safe discipline.protocol (fun _ _ => True) (m ()) w :=
    fun h => Prog.Safe.weaken (fun _ _ _ => trivial) (h ())
  have answer : ∀ {α : Type} {m : Request.Run α}, Asks m Any w →
      Asks (do let _ ← m; return .job (← getJob) : Request.Run Response) Any w := by
    intro α m h
    apply Discipline.does_bind hw h
    intro _ w₁ hw₁ _ _
    apply Discipline.does_bind hw₁ (asks_getJob hw₁)
    intro job w₂ hw₂ _ _
    exact Discipline.does_pure hw₂ fun _ _ _ => trivial
  cases request with
  | poll => exact safe (asks_poll hw)
  | dispatch rev => exact safe (asks_dispatch hw)
  | cancel rev => exact safe (asks_cancel hw)
  | applyCoreSnapshot snapshot =>
    have hasks : Asks (do return .job (← mirrorSnapshot r snapshot) : Request.Run Response) Any w := by
      apply Discipline.does_bind hw (asks_mirrorSnapshot hw)
      intro job w₁ hw₁ _ _
      exact Discipline.does_pure hw₁ fun _ _ _ => trivial
    exact safe hasks
  | recordDecisionIntent rev intent => exact safe (answer (asks_recordDecisionIntent hw))
  | markSourceUploaded =>
    exact safe (answer (asks_question (q := .sourceUploaded) hw (fun _ _ _ => trivial)
      fun _ _ _ _ _ _ _ => trivial))

/-- Evidence of other jobs leaves this one alone. -/
theorem World.Sound.elsewhere {w : World} (hw : w.Sound) (id : JsString) :
    (w.evidenceElsewhere id).Sound ∧ w.Later (w.evidenceElsewhere id) := by
  unfold World.evidenceElsewhere
  split
  · exact ⟨hw, .refl w⟩
  · exact ⟨⟨hw.row, hw.created, hw.bound, hw.cancelled⟩,
      ⟨.refl _, fun _ _ he => he, fun _ h => h, fun h => h⟩⟩

theorem works_respects : (works r).Respects discipline.protocol World.Sound where
  keeps := discipline.keeps
  stable hw hr := (hr hw).1
  answers _ c _ _ := ⟨c, rfl⟩
  outside id _ hw := hw.elsewhere id
  program request _ hw := request.program_safe r hw

/-- A row as it is created is sound. -/
theorem System.created_sound (sources : Nat) (other : List JsString) :
    (System.created sources other).state.Sound := by
  refine ⟨⟨?_, ?_, ?_, ?_⟩, ?_, ?_, ?_⟩
  all_goals simp [System.created, JobRow.created]

variable {r} {sources : Nat} {other : List JsString} {events later : List Event} {s t : System}

/-- A state the Worker reaches is sound, and so is every request under way. -/
theorem reached_sound (h : Run (System.Step r) (.created sources other) events s) :
    s.state.Sound ∧ s.Safe discipline.protocol := by
  have hstart := System.created_sound sources other
  obtain ⟨hrely, hsafe⟩ := Pool.run_safe (works_respects r) h hstart (Pool.safe_start _)
  exact ⟨(hrely hstart).1, hsafe⟩

/-- What comes after a state the Worker reaches undoes nothing of it. -/
theorem reached_later (h : Run (System.Step r) (.created sources other) events s)
    (h' : Run (System.Step r) s later t) : t.state.Sound ∧ s.state.Later t.state := by
  obtain ⟨hs, hsafe⟩ := reached_sound h
  exact (Pool.run_safe (works_respects r) h' hs hsafe).1 hs

/-- The same proposal; the keys of its resource profile may come in another order. -/
structure ApprovalProposal.Same (p q : ApprovalProposal) : Prop where
  policyVersion : p.policyVersion = q.policyVersion
  resourceProfile : p.resourceProfile.Perm q.resourceProfile
  sourceDigest : p.sourceDigest = q.sourceDigest
  proposalDigest : p.proposalDigest = q.proposalDigest
  expiresAt : p.expiresAt = q.expiresAt

theorem same_of_fingerprint {p q : ApprovalProposal} (h : p.fingerprint = q.fingerprint) : p.Same q := by
  have hprofile : p.resourceProfile.insertionSort entryBefore = q.resourceProfile.insertionSort entryBefore :=
    congrArg ApprovalProposal.resourceProfile h
  have hperm : p.resourceProfile.Perm q.resourceProfile :=
    (List.perm_insertionSort entryBefore _).symm.trans
      (hprofile ▸ List.perm_insertionSort entryBefore _)
  have hpolicy := congrArg ApprovalProposal.policyVersion h
  have hsource := congrArg ApprovalProposal.sourceDigest h
  have hdigest := congrArg ApprovalProposal.proposalDigest h
  have hexpires := congrArg ApprovalProposal.expiresAt h
  exact ⟨hpolicy, hperm, hsource, hdigest, hexpires⟩

/-- In every state the Worker reaches, a consumed approval is one the owner has given for the
digest the row shows. From there on the core's revision does not fall, the source digest and the
proposal stay, every evidence row stays as it is, and a terminal state is not left. -/
theorem row_kept (h : Run (System.Step r) (.created sources other) events s)
    (h' : Run (System.Step r) s later t) :
    (s.state.db.job.approvalConsumed = true → ∃ d, s.state.db.job.proposalDigest = some d ∧
      s.state.db.job.authorized = some ⟨.approve, d⟩) ∧
    (∀ c, s.state.db.job.coreRevision = some c → ∃ c', t.state.db.job.coreRevision = some c' ∧ c ≤ c') ∧
    (∀ d, s.state.db.job.sourceDigest = some d → t.state.db.job.sourceDigest = some d) ∧
    (∀ p, s.state.db.job.approvalProposal = some p →
      ∃ p', t.state.db.job.approvalProposal = some p' ∧ p'.Same p) ∧
    (∀ id e, s.state.db.evidence.get? id = some e → t.state.db.evidence.get? id = some e) ∧
    (s.state.db.job.state.terminal = true → t.state.db.job.state = s.state.db.job.state) := by
  obtain ⟨hs, -⟩ := reached_sound h
  obtain ⟨-, hlater⟩ := reached_later h h'
  refine ⟨fun hc => (hs.row.consumed hc).2, hlater.row.coreRevision, hlater.row.sourceDigest,
    fun p hp => ?_, hlater.evidence, hlater.row.terminal⟩
  obtain ⟨p', hp', hsame⟩ := hlater.row.approvalProposal p hp
  exact ⟨p', hp', same_of_fingerprint hsame⟩

/-! ## A run to the end -/

/-- A request, and what it takes to bring it to its end. -/
def requestEvents (n : Nat) (request : Request) (choice : Choice) (steps : Nat) : List Event :=
  .start n request :: List.replicate steps (.resume n choice)

def sampleRuntime : Runtime where
  dateParse _ := some 1893456000000
  toISOString _ := JsString.ofText "2030-01-01T00:00:00.000Z"
  numberText _ := []

def sampleProposal : ApprovalProposal where
  policyVersion := JsString.ofText "v1"
  resourceProfile := [(JsString.ofText "cpu", .str (JsString.ofText "1"))]
  sourceDigest := List.replicate 64 97
  proposalDigest := List.replicate 64 98
  expiresAt := JsString.ofText "2030-01-01T00:00:00.000Z"

/-- A snapshot that carries the proposal. -/
def sampleSnapshot (coreRevision : Int) (state : JobState) (approvalConsumed : Bool) : CoreSnapshot where
  state := state
  summary := JsString.ofText "Done."
  coreRevision := coreRevision
  proposalDigest := some sampleProposal.proposalDigest
  sourceDigest := some sampleProposal.sourceDigest
  approvalProposal := some sampleProposal
  approvalConsumed := approvalConsumed

/-- The core creates a job and answers with its first snapshot. -/
def sampleChoice : Choice where
  newJob := some (JsString.ofText "1")
  coreJob := JsString.ofText "1"
  core := .ok { state := .queued, summary := JsString.ofText "Queued.", coreRevision := 0 }
  mirrored := some { state := .queued, summary := JsString.ofText "Queued.", coreRevision := 0 }

/-- A job is dispatched, proposes, is approved and completes. -/
def approvedHistory : List Event :=
  requestEvents 0 (.dispatch 0) sampleChoice 32 ++
  requestEvents 1 (.applyCoreSnapshot (sampleSnapshot 5 .awaitingApproval false)) sampleChoice 14 ++
  requestEvents 2 (.recordDecisionIntent 4 ⟨.approve, sampleProposal.proposalDigest⟩) sampleChoice 3 ++
  requestEvents 3 (.applyCoreSnapshot (sampleSnapshot 6 .applying false)) sampleChoice 14 ++
  requestEvents 4 (.applyCoreSnapshot (sampleSnapshot 7 .completed true)) sampleChoice 14

theorem approvedHistory_consumes :
    ((System.created 0 []).run? (works sampleRuntime) approvedHistory).map
      (fun s => s.state.db.job.approvalConsumed) = some true := by
  decide +kernel

/-- The row of that run has consumed an approval the owner gave, and stays completed. -/
theorem row_kept_approved : ∃ s, (System.created 0 []).run? (works sampleRuntime) approvedHistory = some s ∧
    s.state.db.job.approvalConsumed = true ∧
    (∃ d, s.state.db.job.proposalDigest = some d ∧ s.state.db.job.authorized = some ⟨.approve, d⟩) := by
  obtain ⟨s, hs, hconsumed⟩ := Option.map_eq_some_iff.mp approvedHistory_consumes
  have hrun : Run (System.Step sampleRuntime) (.created 0 []) approvedHistory s := Pool.run?_run hs
  exact ⟨s, hs, hconsumed, (row_kept hrun (.nil s)).1 hconsumed⟩

end LilTweak.Worker
