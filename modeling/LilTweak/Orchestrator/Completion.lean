import LilTweak.Evidence.Reproduction
import LilTweak.Orchestrator.System

/-!
# What a run that completes a job has seen

A run is watched through the answers it got: what it captured and whether it
asked the store to complete a job. It asks so only once, after the final capture,
when the patch is empty.
-/

namespace LilTweak.Orchestrator

open LilTweak.Lib LilTweak.Core LilTweak.Store LilTweak.Evidence

/-- What the answers of a run tell about it. -/
structure Seen where
  baselines : List WorkspaceSnapshot := []
  finals : List WorkspaceSnapshot := []
  completed : Bool := false

/-- The captures are kept, and the request to complete a job. -/
def Seen.after (s : Seen) : (q : Query) → q.Answer → Seen
  | .service (.captureWorkspace _), .ok snapshot =>
    { s with baselines := s.baselines ++ ([snapshot] : List WorkspaceSnapshot) }
  | .service (.captureFinalSnapshot _ _), .ok snapshot =>
    { s with finals := s.finals ++ ([snapshot] : List WorkspaceSnapshot) }
  | .store (.transitionJob u _ _), _ => { s with completed := s.completed || u.state == .completed }
  | _, _ => s

/-- What a run that got these answers has seen. -/
def seen (l : List ((q : Query) × q.Answer)) : Seen := l.foldl (fun s e => s.after e.1 e.2) {}

/-- The run has captured this baseline and this final workspace, and nothing else. -/
def Captured (args : RunArgs) (s : Seen) (baseline final : WorkspaceSnapshot) : Prop :=
  if args.workspace then s.baselines = [baseline] ∧ s.finals = [final]
  else baseline = emptySnapshot ∧ final = emptySnapshot

variable {P : Platform} {cfg : EngineeringOrchestrator} {args : RunArgs} {α β : Type}
  {s : Seen} {baseline final : WorkspaceSnapshot}

/-- A run that has asked for completion found nothing to print between its captures. -/
def Gated (P : Platform) (args : RunArgs) (s : Seen) : Prop :=
  s.completed = true → ∃ baseline final, Captured args s baseline final ∧
    buildWorkspacePatch P.sha256 baseline final maxEvidenceBytes = .ok []

/-- The run up to here has captured its baseline. -/
structure Began (args : RunArgs) (baseline : WorkspaceSnapshot) (s : Seen) : Prop where
  open_ : s.completed = false
  finals : s.finals = []
  baseline : if args.workspace then s.baselines = [baseline] else baseline = emptySnapshot

/-- The run up to here has made both captures. -/
structure Ended (args : RunArgs) (baseline final : WorkspaceSnapshot) (s : Seen) : Prop where
  open_ : s.completed = false
  captured : Captured args s baseline final

theorem gated_open (h : s.completed = false) : Gated P args s := fun hc => by
  rw [h] at hc
  cases hc

abbrev watched (P : Platform) (args : RunArgs) : Protocol Query Query.Answer Seen :=
  .recording Seen.after (Gated P args)

/-- The action captures nothing and does not ask for completion. -/
def Quiet (P : Platform) (args : RunArgs) (m : Worker α) : Prop :=
  ∀ l s, Gated P args s → Act.Meets (watched P args) m (fun _ _ s' => s' = s) (fun _ _ s' => s' = s) l s

/-- The action returns with `post` true of what was seen, or raises with it gated. -/
def Sees (P : Platform) (args : RunArgs) (m : Worker α) (post : α → Seen → Prop) (s : Seen) : Prop :=
  ∀ l, Act.Meets (watched P args) m (fun a _ s' => post a s') (fun _ _ s' => Gated P args s') l s

/-! ## Rules -/

theorem quiet_pure (a : α) : Quiet P args (pure a) := fun _ _ _ => Act.meets_pure fun _ hs => hs

theorem quiet_raise (e : WorkerFault) : Quiet P args (Act.raise e : Worker α) :=
  fun _ _ _ => Act.meets_raise fun _ hs => hs

theorem quiet_get : Quiet P args Act.get := fun _ _ _ => Act.meets_pure fun _ hs => hs

theorem quiet_put (l : Attempt) : Quiet P args (Act.put l) :=
  fun _ _ _ => Act.meets_pure fun _ hs => hs

theorem quiet_bind {m : Worker β} {f : β → Worker α} (h : Quiet P args m)
    (hf : ∀ b, Quiet P args (f b)) : Quiet P args (m >>= f) := by
  intro l s hs
  refine Act.meets_bind (h l s hs) fun b l' s' hb => ?_
  obtain rfl : s' = s := hb s' rfl
  exact hf b l' s' hs

theorem quiet_handle {m : Worker α} {f : WorkerFault → Worker α} (h : Quiet P args m)
    (hf : ∀ e, Quiet P args (f e)) : Quiet P args (m.handle f) := by
  intro l s hs
  refine Act.meets_handle (h l s hs) fun e l' s' he => ?_
  obtain rfl : s' = s := he s' rfl
  exact hf e l' s' hs

theorem quiet_ite {c : Prop} [Decidable c] {m m' : Worker α} (h : c → Quiet P args m)
    (h' : ¬c → Quiet P args m') : Quiet P args (if c then m else m') := by
  split
  · exact h ‹_›
  · exact h' ‹_›

theorem quiet_orRaise {ε : Type} {wrap : ε → WorkerFault} (r : Except ε α) :
    Quiet P args (orRaise wrap r) := by
  cases r with
  | ok a => exact quiet_pure a
  | error e => exact quiet_raise _

theorem quiet_question {q : Query} (h : ∀ s a, Seen.after s q a = s) : Quiet P args (question q) := by
  intro l s hs
  refine Act.meets_query fun s' hs' => ?_
  obtain rfl : s' = s := hs'
  refine ⟨hs, fun a s₁ h₁ s₂ h₂ => ?_⟩
  obtain rfl : s₁ = Seen.after s' q a := h₁
  obtain rfl : s₂ = Seen.after s' q a := h₂
  exact h s' a

theorem quiet_ask {sv : Service} (h : ∀ s a, Seen.after s (.service sv) a = s) :
    Quiet P args (ask sv) :=
  quiet_bind (quiet_question h) quiet_orRaise

theorem quiet_callStore {op : StoreOp} {read : Reply → Option α}
    (h : ∀ s a, Seen.after s (.store op) a = s) : Quiet P args (callStore op read) := by
  refine quiet_bind (quiet_bind (quiet_question h) quiet_orRaise) fun r => ?_
  unfold readReply
  split
  · exact quiet_pure _
  · exact quiet_raise _

theorem sees_pure {a : α} {post : α → Seen → Prop} (h : post a s) : Sees P args (pure a) post s :=
  fun _ => Act.meets_pure fun _ hs => hs ▸ h

theorem sees_raise {e : WorkerFault} {post : α → Seen → Prop} (h : Gated P args s) :
    Sees P args (Act.raise e) post s :=
  fun _ => Act.meets_raise fun _ hs => hs ▸ h

theorem sees_bind {m : Worker β} {f : β → Worker α} {M : β → Seen → Prop} {post : α → Seen → Prop}
    (h : Sees P args m M s) (hf : ∀ b s', M b s' → Sees P args (f b) post s') :
    Sees P args (m >>= f) post s :=
  fun l => Act.meets_bind (h l) fun b l' s' hb => hf b s' (hb s' rfl) l'

/-- After a quiet action the run goes on from what it had seen. -/
theorem sees_quiet {m : Worker β} {f : β → Worker α} {post : α → Seen → Prop} (hs : Gated P args s)
    (h : Quiet P args m) (hf : ∀ b, Sees P args (f b) post s) : Sees P args (m >>= f) post s :=
  sees_bind (M := fun _ s' => s' = s)
    (fun l => (h l s hs).weaken (fun _ _ _ he => he) fun _ _ _ he => he ▸ hs)
    fun b _ he => he ▸ hf b

theorem Quiet.sees {m : Worker α} (h : Quiet P args m) (hs : Gated P args s) :
    Sees P args m (fun _ s' => Gated P args s') s := fun l =>
  (h l s hs).weaken (fun _ _ _ he => he ▸ hs) fun _ _ _ he => he ▸ hs

theorem sees_ite {c : Prop} [Decidable c] {m m' : Worker α} {post : α → Seen → Prop}
    (h : c → Sees P args m post s) (h' : ¬c → Sees P args m' post s) :
    Sees P args (if c then m else m') post s := by
  split
  · exact h ‹_›
  · exact h' ‹_›

theorem sees_question {q : Query} (hs : Gated P args s) :
    Sees P args (question q) (fun a s' => s' = Seen.after s q a) s := by
  intro l
  refine Act.meets_query fun s' hs' => ?_
  obtain rfl : s' = s := hs'
  refine ⟨hs, fun a s₁ h₁ s₂ h₂ => ?_⟩
  obtain rfl : s₁ = Seen.after s' q a := h₁
  exact h₂

theorem sees_orRaise {ε : Type} {wrap : ε → WorkerFault} {r : Except ε α} (hs : Gated P args s) :
    Sees P args (orRaise wrap r) (fun a s' => r = .ok a ∧ s' = s) s := by
  cases r with
  | ok a => exact sees_pure ⟨rfl, rfl⟩
  | error e => exact sees_raise hs

/-- A service that answers a capture has the capture kept. -/
theorem sees_ask {sv : Service} {post : sv.Value → Seen → Prop} (hs : Gated P args s)
    (hraise : ∀ e, Seen.after s (.service sv) (.error e) = s)
    (hpost : ∀ a, post a (Seen.after s (.service sv) (.ok a))) : Sees P args (ask sv) post s := by
  refine sees_bind (sees_question hs) ?_
  rintro (e | a) s' rfl
  · rw [hraise e]
    exact sees_raise hs
  · exact sees_pure (hpost a)

/-- A store call that leaves what was seen gated. -/
theorem sees_callStore {op : StoreOp} {read : Reply → Option α} (hs : Gated P args s)
    (hop : ∀ a, Gated P args (Seen.after s (.store op) a)) :
    Sees P args (callStore op read) (fun _ s' => Gated P args s') s := by
  refine sees_bind (M := fun _ s' => Gated P args s') ?_ fun r s' hs' => ?_
  · refine sees_bind (sees_question hs) fun r s' hr => ?_
    have hs' : Gated P args s' := hr ▸ hop r
    exact (quiet_orRaise r).sees hs'
  · unfold readReply
    split
    · exact sees_pure hs'
    · exact sees_raise hs'

/-! ## The quiet parts of the program -/

theorem quiet_getJob {jobId : JobId} {ownerId : OwnerId} : Quiet P args (getJob jobId ownerId) :=
  quiet_callStore fun _ _ => rfl

theorem quiet_appendEvent {jobId : JobId} {ownerId : OwnerId} {kind : String} {data : JsonObj} :
    Quiet P args (appendEvent jobId ownerId kind data) :=
  quiet_callStore fun _ _ => rfl

theorem quiet_renewLease : Quiet P args (renewLease cfg) := by
  refine quiet_bind quiet_get fun w => ?_
  cases w.lease with
  | none => exact quiet_pure ()
  | some lease => exact quiet_bind (quiet_callStore fun _ _ => rfl) fun _ => quiet_put _

theorem quiet_move {job : Job} {m : Move} (h : m.state ≠ .completed) :
    Quiet P args (move cfg job m) := by
  refine quiet_bind quiet_renewLease fun _ => quiet_bind quiet_get fun w => quiet_callStore ?_
  intro s a
  have hne : (m.state == JobState.completed) = false := by
    exact beq_eq_false_iff_ne.mpr h
  simp only [Seen.after, Move.update, hne, Bool.or_false]

theorem quiet_moveFrom {job : Job} {state next : JobState} (h : next ≠ .completed) :
    Quiet P args (moveFrom cfg state next job) :=
  quiet_ite (fun _ => quiet_move h) fun _ => quiet_pure job

theorem quiet_fetchGalor {ownerId : OwnerId} {job : Job} :
    Quiet P args (fetchGalor cfg ownerId job) := by
  refine quiet_ite (fun _ => quiet_bind (quiet_ask fun _ _ => rfl) fun answer => ?_) fun _ =>
    quiet_pure none
  exact quiet_ite (fun _ => quiet_bind quiet_appendEvent fun _ => quiet_pure _) fun _ => quiet_pure _

theorem quiet_verifyPatch {job : Job} {patch : Bytes} :
    Quiet P args (verifyPatch P cfg args job patch baseline final) :=
  quiet_ite (fun _ => quiet_bind (quiet_ask fun _ _ => rfl) fun _ => quiet_pure _) fun _ => quiet_pure _

theorem quiet_storeEvidence {keyPrefix : String} {files : List Artifact} :
    ∀ {manifest : JsonObj}, Quiet P args (storeEvidence cfg keyPrefix files manifest) := by
  induction files with
  | nil => exact quiet_pure _
  | cons f rest ih =>
    exact quiet_bind quiet_renewLease fun _ => quiet_bind (quiet_ask fun _ _ => rfl) fun _ => ih

theorem quiet_recover {fault : WorkerFault} : Quiet P args (recover cfg args fault) := by
  cases fault with
  | promotionRecoveryRequired code => exact quiet_raise _
  | _ =>
    refine quiet_bind quiet_getJob fun latest => ?_
    cases latest with
    | none => exact quiet_raise _
    | some latest =>
      refine quiet_ite (fun _ => quiet_raise _) fun _ => ?_
      refine quiet_ite (fun _ => quiet_move (by decide)) fun _ => ?_
      first
        | exact quiet_move (by decide)
        | exact quiet_bind (quiet_move (by decide)) fun _ =>
            quiet_bind quiet_appendEvent fun _ => quiet_pure _

theorem quiet_removeSnapshotTrees {paths : List String} :
    Quiet P args (removeSnapshotTrees paths) := by
  induction paths with
  | nil => exact quiet_pure ()
  | cons path rest ih => exact quiet_bind (quiet_ask fun _ _ => rfl) fun _ => ih

theorem quiet_cleanup {preserve : Bool} : Quiet P args (cleanup cfg preserve) := by
  refine quiet_bind (quiet_ite (fun _ => quiet_ask fun _ _ => rfl) fun _ => quiet_pure false)
    fun recovering => quiet_bind quiet_get fun w => ?_
  exact quiet_ite (fun _ => quiet_pure ()) fun _ => quiet_removeSnapshotTrees

/-! ## The captures and the gate -/

theorem sees_captureBaseline {job : Job} :
    Sees P args (captureBaseline cfg args job) (Began args) {} := by
  have hs : Gated P args {} := gated_open rfl
  refine sees_ite (fun hworkspace => ?_) fun hworkspace =>
    sees_pure ⟨rfl, rfl, by rw [if_neg hworkspace]⟩
  refine sees_ite (fun _ => sees_raise hs) fun _ => ?_
  refine sees_quiet hs (quiet_ask fun _ _ => rfl) fun recovering => ?_
  refine sees_ite (fun _ => sees_raise hs) fun _ => ?_
  refine sees_quiet hs (quiet_ask fun _ _ => rfl) fun _ => sees_quiet hs quiet_get fun w => ?_
  refine sees_quiet hs (quiet_put _) fun _ => sees_ask hs (fun _ => rfl) fun snapshot => ?_
  exact ⟨rfl, rfl, by rw [if_pos hworkspace]; rfl⟩

theorem sees_captureFinal {root : String} (h : Began args baseline s) :
    Sees P args (captureFinal args root baseline) (Ended args baseline) s := by
  have hs : Gated P args s := gated_open h.open_
  have hbaseline := h.baseline
  refine sees_ite (fun hworkspace => sees_ask hs (fun _ => rfl) fun snapshot => ⟨h.open_, ?_⟩)
    fun hworkspace => sees_pure ⟨h.open_, ?_⟩
  · rw [if_pos hworkspace] at hbaseline
    unfold Captured
    rw [if_pos hworkspace]
    exact ⟨hbaseline, congrArg (· ++ [snapshot]) h.finals⟩
  · rw [if_neg hworkspace] at hbaseline
    unfold Captured
    rw [if_neg hworkspace]
    exact ⟨hbaseline, hbaseline⟩

/-- Without an approval to wait for, a run that did not time out has an empty patch. -/
theorem approvalNeeded_false {patch : Bytes} {result : AgentResult}
    (h : approvalNeeded false patch result = false) : patch = [] := by
  simp only [approvalNeeded, Bool.not_false, Bool.true_and, Bool.or_eq_false_iff] at h
  simpa using h.1

theorem sees_settle {ownerId : OwnerId} {job : Job} {result : AgentResult} {bundle : EvidenceBundle}
    {manifest : JsonObj} {binding : Option JsonObj} {timedOut : Bool} {patch : Bytes}
    (h : Ended args baseline final s)
    (hbuild : buildWorkspacePatch P.sha256 baseline final maxEvidenceBytes = .ok patch)
    (hbinding : binding = none → approvalNeeded timedOut patch result = false) :
    Sees P args (settle P cfg ownerId job result baseline bundle manifest binding timedOut)
      (fun _ s' => Gated P args s') s := by
  have hs : Gated P args s := gated_open h.open_
  cases binding with
  | some binding =>
    exact (quiet_bind (quiet_move (by simp)) fun _ =>
      quiet_bind quiet_appendEvent fun _ => quiet_pure _).sees hs
  | none =>
    cases timedOut with
    | true => exact (quiet_move (by simp)).sees hs
    | false =>
      obtain rfl := approvalNeeded_false (hbinding rfl)
      refine sees_quiet hs quiet_renewLease fun _ => sees_quiet hs quiet_get fun w => ?_
      refine sees_callStore hs fun a _ => ⟨baseline, final, ?_, hbuild⟩
      exact h.captured

theorem sees_collect {job : Job} {root : String} {startedAt : Time} {result : AgentResult}
    (h : Began args baseline s) :
    Sees P args (collect P cfg args job root startedAt baseline result)
      (fun _ s' => Gated P args s') s := by
  refine sees_bind (sees_captureFinal h) fun final s₁ h₁ => ?_
  have hs : Gated P args s₁ := gated_open h₁.open_
  refine sees_bind (sees_orRaise hs) fun patch s₂ h₂ => ?_
  obtain ⟨hbuild, rfl⟩ := h₂
  refine sees_quiet hs quiet_verifyPatch fun receipt => ?_
  refine sees_quiet hs (quiet_ask fun _ _ => rfl) fun commands => ?_
  refine sees_quiet hs (quiet_ask fun _ _ => rfl) fun journal => ?_
  refine sees_ite (fun _ => sees_raise hs) fun _ => sees_ite (fun _ => sees_raise hs) fun _ => ?_
  refine sees_bind (M := fun binding s' => s' = s₂ ∧ (binding = none →
    approvalNeeded (commands.timeouts.any id) patch result = false)) ?_ fun binding s₃ h₃ => ?_
  · refine sees_ite (fun _ => ?_) fun hneeded => sees_pure ⟨rfl, fun _ => by simpa using hneeded⟩
    exact sees_quiet hs (quiet_ask fun _ _ => rfl) fun now => sees_pure ⟨rfl, fun hnone => by cases hnone⟩
  obtain ⟨rfl, hbinding⟩ := h₃
  refine sees_quiet hs (quiet_ask fun _ _ => rfl) fun finishedAt => ?_
  refine sees_quiet hs (quiet_ask fun _ _ => rfl) fun bundle => ?_
  exact sees_quiet hs quiet_storeEvidence fun manifest => sees_settle h₁ hbuild hbinding

theorem sees_execute {job : Job} {root : String} {startedAt deadline : Time}
    (h : Began args baseline s) :
    Sees P args (execute P cfg args root startedAt deadline baseline job)
      (fun _ s' => Gated P args s') s := by
  have hs : Gated P args s := gated_open h.open_
  refine sees_quiet hs quiet_fetchGalor fun _ => ?_
  refine sees_quiet hs (quiet_ask fun _ _ => rfl) fun result => ?_
  refine sees_quiet hs quiet_getJob fun latest => ?_
  cases latest with
  | none => exact sees_raise hs
  | some latest =>
    refine sees_ite (fun _ => (quiet_move (by decide)).sees hs) fun _ => ?_
    exact sees_quiet hs (quiet_move (by decide)) fun _ =>
      sees_quiet hs (quiet_move (by decide)) fun _ => sees_collect h

theorem sees_announce {ownerId : OwnerId} {k : Job → Worker Job} (hs : Gated P args s)
    (hk : ∀ job, Sees P args (k job) (fun _ s' => Gated P args s') s) {states : List JobState}
    (hstates : JobState.completed ∉ states) : ∀ {job : Job},
      Sees P args (announce P cfg ownerId baseline states job k) (fun _ s' => Gated P args s') s := by
  induction states with
  | nil => exact hk _
  | cons state rest ih =>
    intro job
    obtain ⟨hstate, hrest⟩ := not_or.mp (mt List.mem_cons.mpr hstates)
    refine sees_quiet hs (quiet_move (Ne.symm hstate)) fun moved => ?_
    refine sees_quiet hs quiet_getJob fun latest => ?_
    cases latest with
    | none => exact ih hrest
    | some latest => exact sees_ite (fun _ => (quiet_move (by decide)).sees hs) fun _ => ih hrest

theorem sees_attempt {job : Job} {startedAt deadline : Time} :
    Sees P args (attempt P cfg args job startedAt deadline) (fun _ s' => Gated P args s') {} := by
  have hstart : Gated P args {} := gated_open rfl
  refine sees_quiet hstart (quiet_moveFrom (by decide)) fun _ => ?_
  refine sees_quiet hstart (quiet_moveFrom (by decide)) fun _ => ?_
  refine sees_bind sees_captureBaseline fun baseline s h => ?_
  have hs : Gated P args s := gated_open h.open_
  refine sees_quiet hs quiet_get fun w => sees_announce hs (fun _ => ?_) (by decide)
  exact sees_execute h

theorem sees_handle {m : Worker α} {f : WorkerFault → Worker α}
    (h : Sees P args m (fun _ s' => Gated P args s') s) (hf : ∀ e, Quiet P args (f e)) :
    Sees P args (m.handle f) (fun _ s' => Gated P args s') s :=
  fun l => Act.meets_handle (h l) fun e l' s' he => (hf e).sees (he s' rfl) l'

theorem sees_guarded {job : Job} {startedAt deadline : Time} :
    Sees P args (guarded P cfg args job startedAt deadline) (fun _ s' => Gated P args s') {} := by
  refine sees_bind (M := fun _ s' => Gated P args s') ?_ fun outcome s hs => ?_
  · refine sees_handle ?_ fun e => quiet_pure _
    exact sees_bind (sees_handle sees_attempt fun _ => quiet_recover) fun _ _ hs => sees_pure hs
  · cases outcome with
    | ok job => exact (quiet_bind quiet_cleanup fun _ => quiet_pure job).sees hs
    | error e => exact (quiet_bind quiet_cleanup fun _ => quiet_raise e).sees hs

/-- Whatever a run is answered, what it has seen is gated. -/
theorem sees_runJob : Sees P args (runJob P cfg args) (fun _ s' => Gated P args s') {} := by
  have hs : Gated P args {} := gated_open rfl
  refine sees_quiet hs quiet_getJob fun job => ?_
  cases job with
  | none => exact sees_raise hs
  | some job =>
    refine sees_ite (fun _ => sees_pure hs) fun _ => ?_
    refine sees_ite (fun _ => (quiet_move (by decide)).sees hs) fun _ => ?_
    refine sees_ite (fun _ => sees_raise hs) fun _ => ?_
    refine sees_quiet hs (quiet_ask fun _ _ => rfl) fun startedAt => ?_
    exact sees_quiet hs (quiet_ask fun _ _ => rfl) fun now => sees_guarded

/-! ## Completed jobs -/

theorem Captured.unique {baseline' final' : WorkspaceSnapshot} (h : Captured args s baseline final)
    (h' : Captured args s baseline' final') : baseline' = baseline ∧ final' = final := by
  unfold Captured at h h'
  split at h
  · next hworkspace =>
    rw [if_pos hworkspace] at h'
    exact ⟨(List.cons.inj (h'.1.symm.trans h.1)).1, (List.cons.inj (h'.2.symm.trans h.2)).1⟩
  · next hworkspace =>
    rw [if_neg hworkspace] at h'
    exact ⟨h'.1.trans h.1.symm, h'.2.trans h.2.symm⟩

/-- The final workspace is the baseline: the same files, and so the same digest. -/
def Unchanged (P : Platform) (baseline final : WorkspaceSnapshot) : Prop :=
  (∀ name, final.contents.get? name = baseline.contents.get? name) ∧
    final.sourceDigest P.sha256 = baseline.sourceDigest P.sha256

/-- An empty patch shows an unchanged workspace, unless an empty file came or went. -/
theorem unchanged_iff (hS : Distinguishes P.sha256 (baseline.digested ++ final.digested))
    (hbuild : buildWorkspacePatch P.sha256 baseline final maxEvidenceBytes = .ok []) :
    Unchanged P baseline final ↔ NoEmptyChange baseline final := by
  constructor
  · rintro ⟨hsame, -⟩ name hempty
    exact hempty.ne (hsame name).symm
  · intro hnone
    have hsame : ∀ name, final.contents.get? name = baseline.contents.get? name := fun name =>
      (((patch_empty_iff hS hbuild).mp rfl name).resolve_right (hnone name)).symm
    exact ⟨hsame, sourceDigest_congr hsame⟩

/-- A run that has asked to complete its job has made its captures, and the workspace
is unchanged exactly when no empty file came or went. Without that request a job
leaves `collecting` only to await approval, time out, fail or be cancelled. -/
theorem completed_unchanged_iff {w : Attempt} {l : List ((q : Query) × q.Answer)}
    {p : Prog Query Query.Answer (Except WorkerFault Job × Attempt)}
    (hrun : (runJob P cfg args w).Steps l p) (hdone : (seen l).completed = true) :
    (∃ baseline final, Captured args (seen l) baseline final) ∧
    (∀ baseline final, Captured args (seen l) baseline final →
      Distinguishes P.sha256 (baseline.digested ++ final.digested) →
      (Unchanged P baseline final ↔ NoEmptyChange baseline final)) ∧
    ∀ target, JobState.Edge .collecting target →
      target ∈ [JobState.awaitingApproval, .timedOut, .failed, .cancelled, .completed] := by
  have hgated : Gated P args (seen l) := by
    refine Prog.Safe.recorded ?_ hrun (sees_runJob w)
    rintro ⟨job | e, w⟩ s h <;> exact h
  obtain ⟨baseline, final, hcaptured, hbuild⟩ := hgated hdone
  refine ⟨⟨baseline, final, hcaptured⟩, fun baseline' final' hcaptured' hS => ?_, ?_⟩
  · obtain ⟨rfl, rfl⟩ := hcaptured.unique hcaptured'
    exact unchanged_iff hS hbuild
  · intro target
    cases target <;> decide

/-! ## A run alone with its store -/

/-- What a run is answered, returns and leaves when nobody else calls the store. -/
def solo {α : Type} (H : Hashes) (clk : Clock) (oracle : Oracle) :
    Prog Query Query.Answer α → MemoryJobStore → List ((q : Query) × q.Answer) × α × MemoryJobStore
  | .done a, s => ([], a, s)
  | .ask (.store op) k, s =>
    let r := exec H s op clk
    let rest := solo H clk oracle (k r.1) r.2
    (⟨.store op, r.1⟩ :: rest.1, rest.2)
  | .ask (.service sv) k, s =>
    let rest := solo H clk oracle (k (oracle sv)) s
    (⟨.service sv, oracle sv⟩ :: rest.1, rest.2)

theorem solo_steps {H : Hashes} {clk : Clock} {oracle : Oracle} {p : Prog Query Query.Answer α} :
    ∀ {s : MemoryJobStore}, p.Steps (solo H clk oracle p s).1 (.done (solo H clk oracle p s).2.1) := by
  induction p with
  | done a => exact .nil _
  | ask q k ih =>
    intro s
    cases q with
    | store op => exact .cons (ih _)
    | service sv => exact .cons (ih _)

/-- The answers when the agent turns one workspace into another. -/
def editOracle (before after : WorkspaceSnapshot) : Oracle
  | .clock => .ok (0 : Time)
  | .monotonic => .ok (0 : Time)
  | .recoveryContextExists => .ok false
  | .removeSnapshotTree _ => .ok ()
  | .captureWorkspace _ => .ok before
  | .captureFinalSnapshot _ _ => .ok after
  | .fetchGalor _ => .ok (none, false)
  | .runAgent .. => .ok { plan := "", summary := "" }
  | .verifyRunner .. => .ok (∅ : JsonObj)
  | .commandEvidence => .ok ⟨[], []⟩
  | .editJournalEvidence => .ok (∅ : JsonObj)
  | .buildBundle .. => .ok ⟨[], ""⟩
  | .putEvidence _ _ h => .ok ⟨h, 0⟩

def sampleArgs : RunArgs := { jobId := "job", ownerId := "owner", workspace := true }

/-- The sample job is run over a workspace that is edited so. -/
def editRun (before after : WorkspaceSnapshot) :=
  solo plainHashes (fun _ => 0) (editOracle before after)
    (runJob ⟨sampleSha256, fun _ => ""⟩ {} sampleArgs { lease := none }) sampleStore

/-- The state of the job a run returns. -/
def returnedState (run : List ((q : Query) × q.Answer) × (Except WorkerFault Job × Attempt) ×
    MemoryJobStore) : Option JobState :=
  run.2.1.1.toOption.map Job.state

/-- A run that leaves its one file as it was. -/
theorem completed_unchanged_iff_sample :
    Unchanged ⟨sampleSha256, fun _ => ""⟩ (sampleSnapshot "one\n") (sampleSnapshot "one\n") ↔
      NoEmptyChange (sampleSnapshot "one\n") (sampleSnapshot "one\n") := by
  have hdone : (seen (editRun (sampleSnapshot "one\n") (sampleSnapshot "one\n")).1).completed = true := by
    decide +kernel
  exact (completed_unchanged_iff solo_steps hdone).2.1 _ _ ⟨rfl, rfl⟩ (by decide)

/-- A job that adds an empty file is completed without approval. -/
theorem empty_file_completes :
    returnedState (editRun (sampleSnapshot none) (sampleSnapshot (some ""))) = some .completed ∧
    Captured sampleArgs (seen (editRun (sampleSnapshot none) (sampleSnapshot (some ""))).1)
      (sampleSnapshot none) (sampleSnapshot (some "")) ∧
    ¬Unchanged ⟨sampleSha256, fun _ => ""⟩ (sampleSnapshot none) (sampleSnapshot (some "")) := by
  refine ⟨by decide +kernel, ⟨rfl, rfl⟩, fun h => ?_⟩
  have hname := h.1 "a.txt"
  revert hname
  decide

end LilTweak.Orchestrator
