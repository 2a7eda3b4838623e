import LilTweak.Orchestrator.RunJob
import LilTweak.Store.Lifecycle

/-!
# What a run of the workflow may ask of the store

Whatever others do to the store between its calls, a run only reads, renews its
lease, appends events and makes the moves of `RunMove`, each from a job the
store really held at the revision the move names. The proof follows the program,
one lemma for each of its parts.
-/

namespace LilTweak.Orchestrator

open LilTweak.Lib LilTweak.Core LilTweak.Store LilTweak.Evidence

/-- The store held this job, and holds it still unless its revision has grown. -/
def Knows (job : Job) (s : MemoryJobStore) : Prop :=
  ∃ current, s.jobs.get? job.id = some current ∧ job.revision ≤ current.revision ∧
    (job.revision = current.revision → current = job)

theorem Knows.later {job : Job} {s s' : MemoryJobStore} (h : Knows job s) (hs : Continues s s') :
    Knows job s' := by
  obtain ⟨current, hcur, hle, hsame⟩ := h
  obtain ⟨current', hcur', hle', hsame', -⟩ := hs _ _ hcur
  refine ⟨current', hcur', hle.trans hle', fun e => ?_⟩
  have hone : current = job := hsame (le_antisymm hle (e ▸ hle'))
  rw [hsame' (by rw [hone, ← e])]
  exact hone

theorem knows_stored {s : MemoryJobStore} (hw : s.WellFormed) {id : JobId} {job : Job}
    (h : s.jobs.get? id = some job) : Knows job s :=
  ⟨job, by rw [hw.ids id job h]; exact h, le_refl _, fun _ => rfl⟩

/-- The moves a run makes: those that only change the state, the one that freezes
the source, and, from a job in `collecting` without a cancellation, the two that
settle the run. -/
inductive RunMove (P : Platform) (cfg : EngineeringOrchestrator) (job : Job) : Move → Prop
  | plain {state : JobState} (h : state ∈ [JobState.queued, .ingesting, .executing, .testing,
      .collecting, .cancelled, .timedOut, .failed]) : RunMove P cfg job { state }
  | planning (baseline : WorkspaceSnapshot) : RunMove P cfg job
      { state := .planning, sourceDigest := some (baseline.sourceDigest P.sha256) }
  | awaiting (baseline : WorkspaceSnapshot) (digest expiresAt summary : String) (manifest : JsonObj)
      (hstate : job.state = .collecting) (hflag : job.cancelRequested = false) : RunMove P cfg job
      { state := .awaitingApproval
        proposalDigest := some digest
        evidenceManifest := some manifest
        summary := some summary
        sourceDigest := some (baseline.sourceDigest P.sha256)
        approvalProposal := some ((approvalBinding cfg (baseline.sourceDigest P.sha256) expiresAt).set
          "proposalDigest" (.str digest)) }
  | finish {state : JobState} (baseline : WorkspaceSnapshot) (digest summary : String)
      (manifest : JsonObj) (hfinal : state = .timedOut ∨ state = .completed)
      (hstate : job.state = .collecting) (hflag : job.cancelRequested = false) : RunMove P cfg job
      { state
        proposalDigest := some digest
        evidenceManifest := some manifest
        summary := some summary
        sourceDigest := some (baseline.sourceDigest P.sha256) }

/-- The store calls a run may make. -/
def WorkerCall (P : Platform) (s : MemoryJobStore) : StoreOp → Prop
  | .getJob _ _ | .renewClaim _ _ _ | .appendEvent _ _ _ _ => True
  | .transitionJob u kind data => ∃ cfg job m, u = m.update job u.lease ∧ kind = m.state.value ∧
      data = some ∅ ∧ Knows job s ∧ RunMove P cfg job m
  | _ => False

theorem WorkerCall.step {H : Hashes} {P : Platform} {s s' : MemoryJobStore} {op : StoreOp}
    {clk : Clock} {r : Except StoreFault Reply} (h : WorkerCall P s op)
    (hexec : exec H s op clk = (r, s')) : StoreStep H s ⟨op, clk⟩ s' := by
  refine ⟨?_, by rw [hexec]⟩
  cases op <;> trivial

/-- A run relies on the store keeping its links and its jobs going on; it guarantees
its calls. -/
def storeProtocol (H : Hashes) (P : Platform) : Protocol Query Query.Answer MemoryJobStore where
  rely s s' := s.WellFormed → s'.WellFormed ∧ Continues s s'
  answers s q a s' :=
    match q, a with
    | .store op, a => ∃ clk, exec H s op clk = (a, s')
    | .service _, _ => s' = s
  guard s q :=
    match q with
    | .store op => WorkerCall P s op
    | .service _ => True
  refl s hw := ⟨hw, Continues.refl s⟩
  trans h h' hw := ⟨(h' (h hw).1).1, (h hw).2.trans (h' (h hw).1).2⟩

theorem storeProtocol_keeps (H : Hashes) (P : Platform) : (storeProtocol H P).Keeps := by
  intro s q a s' hg ha hw
  cases q with
  | service sv =>
    obtain rfl : s' = s := ha
    exact ⟨hw, Continues.refl _⟩
  | store op =>
    obtain ⟨clk, hexec⟩ : ∃ clk, exec H s op clk = (a, s') := ha
    have hstep := WorkerCall.step hg hexec
    exact ⟨hstep.wellFormed hw, hstep.continues hw⟩

variable {H : Hashes} {P : Platform} {cfg : EngineeringOrchestrator} {s : MemoryJobStore}
  {α β : Type}

/-- A fact about what an action returned that the store cannot undo. -/
def Lasting (post : α → MemoryJobStore → Prop) : Prop :=
  ∀ a s s', post a s → Continues s s' → post a s'

/-- From a well-formed store the action only makes its calls, whatever its lease, and
what it returns satisfies `post`. -/
def Works (H : Hashes) (P : Platform) (m : Worker α) (post : α → MemoryJobStore → Prop)
    (s : MemoryJobStore) : Prop :=
  ∀ l, Act.Meets (storeProtocol H P) m (fun a _ s => s.WellFormed ∧ post a s)
    (fun _ _ s => s.WellFormed) l s

/-! ## Rules -/

theorem works_pure {a : α} {post : α → MemoryJobStore → Prop} (hw : s.WellFormed)
    (h : ∀ s', s'.WellFormed → Continues s s' → post a s') : Works H P (pure a) post s :=
  fun _ => Act.meets_pure fun s' hs => ⟨(hs hw).1, h s' (hs hw).1 (hs hw).2⟩

theorem works_raise {e : WorkerFault} {post : α → MemoryJobStore → Prop} (hw : s.WellFormed) :
    Works H P (Act.raise e) post s :=
  fun _ => Act.meets_raise fun _ hs => (hs hw).1

theorem works_bind {m : Worker β} {f : β → Worker α} {M : β → MemoryJobStore → Prop}
    {post : α → MemoryJobStore → Prop} (hw : s.WellFormed) (h : Works H P m M s)
    (hf : ∀ b s', s'.WellFormed → Continues s s' → M b s' → Works H P (f b) post s') :
    Works H P (m >>= f) post s := by
  intro l
  refine Act.meets_bind (M := fun b _ s' => (storeProtocol H P).rely s s' ∧ s'.WellFormed ∧ M b s') ?_ fun b l' s' hb => ?_
  · exact ((h l).since (storeProtocol_keeps H P)).weaken (fun _ _ _ hr => hr) fun _ _ _ hr => hr.2
  · obtain ⟨hs, hw', hmid⟩ := hb s' ((storeProtocol H P).refl s')
    exact hf b s' hw' (hs hw).2 hmid l'

theorem works_handle {m : Worker α} {f : WorkerFault → Worker α} {post : α → MemoryJobStore → Prop}
    (h : Works H P m post s) (hf : ∀ e s', s'.WellFormed → Works H P (f e) post s') :
    Works H P (m.handle f) post s :=
  fun l => Act.meets_handle (h l) fun e l' s' he =>
    hf e s' (he s' ((storeProtocol H P).refl s')) l'

theorem works_get (hw : s.WellFormed) : Works H P Act.get (fun _ _ => True) s :=
  fun _ => Act.meets_pure fun _ hs => ⟨(hs hw).1, trivial⟩

theorem works_put {l : Attempt} (hw : s.WellFormed) : Works H P (Act.put l) (fun _ _ => True) s :=
  fun _ => Act.meets_pure fun _ hs => ⟨(hs hw).1, trivial⟩

theorem works_ask {sv : Service} (hw : s.WellFormed) : Works H P (ask sv) (fun _ _ => True) s := by
  refine works_bind hw (M := fun _ _ => True) (m := question (.service sv)) ?_ ?_
  · intro l
    refine Act.meets_query fun s' hs => ⟨trivial, fun a s'' ha s''' hs' => ?_⟩
    obtain rfl : s'' = s' := ha
    exact ⟨(hs' (hs hw).1).1, trivial⟩
  · rintro (e | a) s' hw' - -
    · exact works_raise hw'
    · exact works_pure hw' fun _ _ _ => trivial

/-- A store call: what `post` says of its reply, it says of the part that is read. -/
theorem works_callStore {op : StoreOp} {read : Reply → Option α} {post : α → MemoryJobStore → Prop}
    (hw : s.WellFormed) (hpost : Lasting post)
    (hguard : ∀ s', s'.WellFormed → Continues s s' → WorkerCall P s' op)
    (h : ∀ s' clk r s'', s'.WellFormed → Continues s s' → Effect H s' op clk r s'' →
      s''.WellFormed → ∀ a, read r = some a → post a s'') :
    Works H P (callStore op read) post s := by
  have hcall : Works H P (question (.store op))
      (fun r s'' => ∀ r', r = .ok r' → ∀ a, read r' = some a → post a s'') s := by
    intro l
    refine Act.meets_query fun s' hs => ⟨hguard s' (hs hw).1 (hs hw).2, fun r s'' hr s₃ hs' => ?_⟩
    obtain ⟨clk, hexec⟩ : ∃ clk, exec H s' op clk = (r, s'') := hr
    have hw' := (hs hw).1
    have hstep := (hguard s' hw' (hs hw).2).step hexec
    have hw'' := hstep.wellFormed hw'
    obtain ⟨hw₃, hlater⟩ := hs' hw''
    refine ⟨hw₃, ?_⟩
    rintro r' rfl a ha
    rcases hstep.cases hw' with ⟨⟨e, he⟩, -⟩ | ⟨r'', hr'', heff⟩
    · rw [hexec] at he
      cases he
    · rw [hexec] at hr''
      obtain rfl := Except.ok.inj hr''
      exact hpost _ _ _ (h s' clk r' s'' hw' (hs hw).2 heff hw'' a ha) hlater
  refine works_bind hw (M := fun r s' => ∀ a, read r = some a → post a s') ?_ ?_
  · refine works_bind hw hcall ?_
    rintro (e | r) s' hw' - hr
    · exact works_raise hw'
    · exact works_pure hw' fun s'' _ hs a ha => hpost _ _ _ (hr r rfl a ha) hs
  · intro r s' hw' _ hr
    unfold readReply
    cases ha : read r with
    | none => exact works_raise hw'
    | some a => exact works_pure hw' fun s'' _ hs => hpost _ _ _ (hr a ha) hs

/-! ## Store calls -/

theorem works_getJob {jobId : JobId} {ownerId : OwnerId} (hw : s.WellFormed) :
    Works H P (getJob jobId ownerId) (fun r s => ∀ job, r = some job → Knows job s) s := by
  refine works_callStore hw ?_ (fun _ _ _ => trivial) ?_
  · intro r s s' h hs job hr
    exact (h job hr).later hs
  · intro s' clk r s'' hw' _ heff _ a ha job hjob
    subst hjob
    cases heff with
    | read hread =>
      cases hread with
      | got =>
        have hstored : s'.ownedJob jobId ownerId = some job := Option.some.inj ha
        exact knows_stored hw' (MemoryJobStore.ownedJob_eq_some.mp hstored).1

theorem works_appendEvent {jobId : JobId} {ownerId : OwnerId} {kind : String} {data : JsonObj}
    (hw : s.WellFormed) : Works H P (appendEvent jobId ownerId kind data) (fun _ _ => True) s :=
  works_callStore hw (fun _ _ _ _ _ => trivial) (fun _ _ _ => trivial)
    fun _ _ _ _ _ _ _ _ _ _ => trivial

theorem works_renewLease (hw : s.WellFormed) :
    Works H P (renewLease cfg) (fun _ _ => True) s := by
  refine works_bind hw (works_get hw) fun w s' hw' _ _ => ?_
  cases w.lease with
  | none => exact works_pure hw' fun _ _ _ => trivial
  | some lease =>
    refine works_bind hw' (M := fun _ _ => True) ?_ fun _ s'' hw'' _ _ => works_put hw''
    exact works_callStore hw' (fun _ _ _ _ _ => trivial) (fun _ _ _ => trivial)
      fun _ _ _ _ _ _ _ _ _ _ => trivial

/-- What a move from a known job returns. -/
structure Moved (job : Job) (m : Move) (job' : Job) (s : MemoryJobStore) : Prop where
  known : Knows job' s
  state : job'.state = m.state
  flag : job'.cancelRequested = job.cancelRequested

/-- The transition of a move, once the lease is renewed. -/
theorem works_transition {job : Job} {m : Move} {lease : Option JobLease} (hw : s.WellFormed)
    (hk : Knows job s) (hm : RunMove P cfg job m) :
    Works H P (callStore (.transitionJob (m.update job lease) m.state.value (some ∅)) asJob)
      (Moved job m) s := by
  refine works_callStore hw ?_ ?_ ?_
  · exact fun _ _ _ h hs => ⟨h.known.later hs, h.state, h.flag⟩
  · exact fun s' _ hs => ⟨cfg, job, m, rfl, rfl, rfl, hk.later hs, hm⟩
  · intro s' clk r s'' _ hs heff hw'' job' hjob'
    obtain ⟨known, hknown, -, hsame⟩ := hk.later hs
    cases heff with
    | read hread => cases hread
    | transitioned hjob _ hrev _ ht =>
      -- The revision has not grown, so the stored job is the known one.
      obtain rfl := Option.some.inj (hknown.symm.trans hjob)
      have hrev' : (known.revision : Int) = job.revision := hrev
      obtain rfl := hsame (by omega)
      obtain ⟨rfl, -⟩ := transition_ok ht
      obtain rfl := Option.some.inj hjob'
      exact ⟨knows_stored hw'' (Dict.get?_set_self ..), rfl, rfl⟩

theorem works_move {job : Job} {m : Move} (hw : s.WellFormed) (hk : Knows job s)
    (hm : RunMove P cfg job m) : Works H P (move cfg job m) (Moved job m) s := by
  refine works_bind hw (works_renewLease hw) fun _ s' hw' hs' _ => ?_
  refine works_bind hw' (works_get hw') fun w s'' hw'' hs'' _ => ?_
  exact works_transition hw'' ((hk.later hs').later hs'') hm

/-! ## The parts of the program -/

theorem works_ite {c : Prop} [Decidable c] {m m' : Worker α} {post : α → MemoryJobStore → Prop}
    (h : c → Works H P m post s) (h' : ¬c → Works H P m' post s) :
    Works H P (if c then m else m') post s := by
  split
  · exact h ‹_›
  · exact h' ‹_›

theorem works_weaken {m : Worker α} {post post' : α → MemoryJobStore → Prop}
    (h : Works H P m post s) (hpost : ∀ a s, post a s → post' a s) : Works H P m post' s :=
  fun l => (h l).weaken (fun _ _ _ hr => ⟨hr.1, hpost _ _ hr.2⟩) fun _ _ _ hr => hr

theorem works_orRaise {ε : Type} {wrap : ε → WorkerFault} {r : Except ε α} (hw : s.WellFormed) :
    Works H P (orRaise wrap r) (fun _ _ => True) s := by
  cases r with
  | ok a => exact works_pure hw fun _ _ _ => trivial
  | error e => exact works_raise hw

/-- A move whose result is returned as it is. -/
theorem works_lastMove {job : Job} {state : JobState} (hw : s.WellFormed) (hk : Knows job s)
    (h : state ∈ [JobState.queued, .ingesting, .executing, .testing, .collecting, .cancelled,
      .timedOut, .failed]) : Works H P (move cfg job { state }) (fun _ _ => True) s :=
  works_weaken (works_move hw hk (.plain h)) fun _ _ _ => trivial

theorem works_captureBaseline {args : RunArgs} {job : Job} (hw : s.WellFormed) :
    Works H P (captureBaseline cfg args job) (fun _ _ => True) s := by
  refine works_ite (fun _ => works_ite (fun _ => works_raise hw) fun _ => ?_) fun _ =>
    works_pure hw fun _ _ _ => trivial
  refine works_bind hw (works_ask hw) fun recovering s' hw' _ _ => ?_
  refine works_ite (fun _ => works_raise hw') fun _ => ?_
  refine works_bind hw' (works_ask hw') fun _ s'' hw'' _ _ => ?_
  refine works_bind hw'' (works_get hw'') fun w s₃ hw₃ _ _ => ?_
  exact works_bind hw₃ (works_put hw₃) fun _ s₄ hw₄ _ _ => works_ask hw₄

theorem works_captureFinal {args : RunArgs} {root : String} {baseline : WorkspaceSnapshot}
    (hw : s.WellFormed) : Works H P (captureFinal args root baseline) (fun _ _ => True) s :=
  works_ite (fun _ => works_ask hw) fun _ => works_pure hw fun _ _ _ => trivial

theorem works_fetchGalor {ownerId : OwnerId} {job : Job} (hw : s.WellFormed) :
    Works H P (fetchGalor cfg ownerId job) (fun _ _ => True) s := by
  refine works_ite (fun _ => ?_) fun _ => works_pure hw fun _ _ _ => trivial
  refine works_bind hw (works_ask hw) fun answer s' hw' _ _ => ?_
  refine works_ite (fun _ => ?_) fun _ => works_pure hw' fun _ _ _ => trivial
  exact works_bind hw' (works_appendEvent hw') fun _ s'' hw'' _ _ => works_pure hw'' fun _ _ _ => trivial

theorem works_storeEvidence {keyPrefix : String} {files : List Artifact} : ∀ {manifest : JsonObj}
    {s : MemoryJobStore}, s.WellFormed →
    Works H P (storeEvidence cfg keyPrefix files manifest) (fun _ _ => True) s := by
  induction files with
  | nil => exact fun hw => works_pure hw fun _ _ _ => trivial
  | cons f rest ih =>
    intro manifest s hw
    refine works_bind hw (works_renewLease hw) fun _ s' hw' _ _ => ?_
    exact works_bind hw' (works_ask hw') fun _ s'' hw'' _ _ => ih hw''

/-- The moves that settle a run start from a job in `collecting` without a
cancellation. -/
theorem works_settle {ownerId : OwnerId} {job : Job} {result : AgentResult}
    {baseline : WorkspaceSnapshot} {bundle : EvidenceBundle} {manifest : JsonObj}
    {binding : Option JsonObj} {timedOut : Bool}
    (hw : s.WellFormed) (hk : Knows job s) (hstate : job.state = .collecting)
    (hflag : job.cancelRequested = false)
    (hbinding : ∀ b, binding = some b → ∃ expiresAt,
      b = approvalBinding cfg (baseline.sourceDigest P.sha256) expiresAt) :
    Works H P (settle P cfg ownerId job result baseline bundle manifest binding timedOut)
      (fun _ _ => True) s := by
  cases binding with
  | none =>
    refine works_weaken (works_move hw hk (.finish baseline _ _ _ ?_ hstate hflag)) fun _ _ _ => trivial
    cases timedOut
    · exact .inr rfl
    · exact .inl rfl
  | some b =>
    obtain ⟨expiresAt, rfl⟩ := hbinding b rfl
    refine works_bind hw (works_move hw hk (.awaiting baseline _ _ _ _ hstate hflag))
      fun job' s' hw' _ _ => ?_
    exact works_bind hw' (works_appendEvent hw') fun _ s'' hw'' _ _ =>
      works_pure hw'' fun _ _ _ => trivial

theorem works_verifyPatch {args : RunArgs} {job : Job} {patch : Bytes}
    {baseline final : WorkspaceSnapshot} (hw : s.WellFormed) :
    Works H P (verifyPatch P cfg args job patch baseline final) (fun _ _ => True) s := by
  refine works_ite (fun _ => ?_) fun _ => works_pure hw fun _ _ _ => trivial
  exact works_bind hw (works_ask hw) fun _ _ hw' _ _ => works_pure hw' fun _ _ _ => trivial

theorem works_bindApproval {baseline : WorkspaceSnapshot} {needed : Bool} (hw : s.WellFormed) :
    Works H P (bindApproval P cfg baseline needed) (fun binding _ => ∀ b, binding = some b →
      ∃ expiresAt, b = approvalBinding cfg (baseline.sourceDigest P.sha256) expiresAt) s := by
  refine works_ite (fun _ => ?_) fun _ => works_pure hw fun _ _ _ _ h => by cases h
  refine works_bind hw (works_ask hw) fun now _ hw' _ _ => works_pure hw' fun _ _ _ b hb => ?_
  exact ⟨_, (Option.some.inj hb).symm⟩

theorem works_collect {args : RunArgs} {job : Job} {root : String} {startedAt : Time}
    {baseline : WorkspaceSnapshot} {result : AgentResult} (hw : s.WellFormed) (hk : Knows job s)
    (hstate : job.state = .collecting) (hflag : job.cancelRequested = false) :
    Works H P (collect P cfg args job root startedAt baseline result) (fun _ _ => True) s := by
  refine works_bind hw (works_captureFinal hw) fun final s₁ hw₁ hs₁ _ => ?_
  refine works_bind hw₁ (works_orRaise hw₁) fun patch s₂ hw₂ hs₂ _ => ?_
  refine works_bind hw₂ (works_verifyPatch hw₂) fun receipt s₃ hw₃ hs₃ _ => ?_
  refine works_bind hw₃ (works_ask hw₃) fun commands s₄ hw₄ hs₄ _ => ?_
  refine works_bind hw₄ (works_ask hw₄) fun journal s₅ hw₅ hs₅ _ => ?_
  refine works_ite (fun _ => works_raise hw₅) fun _ => ?_
  refine works_ite (fun _ => works_raise hw₅) fun _ => ?_
  refine works_bind hw₅ (works_bindApproval hw₅) fun binding s₆ hw₆ hs₆ hbinding => ?_
  refine works_bind hw₆ (works_ask hw₆) fun finishedAt s₇ hw₇ hs₇ _ => ?_
  refine works_bind hw₇ (works_ask hw₇) fun bundle s₈ hw₈ hs₈ _ => ?_
  refine works_bind hw₈ (works_storeEvidence hw₈) fun manifest s₉ hw₉ hs₉ _ => ?_
  have hs := (((((((hs₁.trans hs₂).trans hs₃).trans hs₄).trans hs₅).trans hs₆).trans hs₇).trans
    hs₈).trans hs₉
  exact works_settle hw₉ (hk.later hs) hstate hflag hbinding

theorem works_execute {args : RunArgs} {root : String} {startedAt deadline : Time}
    {baseline : WorkspaceSnapshot} {job : Job} (hw : s.WellFormed) :
    Works H P (execute P cfg args root startedAt deadline baseline job) (fun _ _ => True) s := by
  refine works_bind hw (works_fetchGalor hw) fun _ s₁ hw₁ _ _ => ?_
  refine works_bind hw₁ (works_ask hw₁) fun result s₂ hw₂ _ _ => ?_
  refine works_bind hw₂ (works_getJob hw₂) fun latest s₃ hw₃ _ hlatest => ?_
  cases latest with
  | none => exact works_raise hw₃
  | some latest =>
    have hk := hlatest latest rfl
    refine works_ite (fun _ => works_lastMove hw₃ hk (by decide)) fun hflag => ?_
    have hflag : latest.cancelRequested = false := by simpa using hflag
    refine works_bind hw₃ (works_move hw₃ hk (.plain (by decide))) fun testing s₄ hw₄ _ h₄ => ?_
    refine works_bind hw₄ (works_move hw₄ h₄.known (.plain (by decide))) fun job s₅ hw₅ _ h₅ => ?_
    exact works_collect hw₅ h₅.known h₅.state (by rw [h₅.flag, h₄.flag, hflag])

theorem works_announce {ownerId : OwnerId} {baseline : WorkspaceSnapshot} {k : Job → Worker Job}
    (hk : ∀ job s, s.WellFormed → Knows job s → Works H P (k job) (fun _ _ => True) s)
    {states : List JobState} (hstates : states ⊆ [.planning, .executing]) :
    ∀ {job : Job} {s : MemoryJobStore}, s.WellFormed → Knows job s →
      Works H P (announce P cfg ownerId baseline states job k) (fun _ _ => True) s := by
  induction states with
  | nil => exact fun hw hjob => hk _ _ hw hjob
  | cons state rest ih =>
    intro job s hw hjob
    have hmove : RunMove P cfg job
        { state
          sourceDigest := if state = .planning then some (baseline.sourceDigest P.sha256) else none } := by
      have hmem := hstates List.mem_cons_self
      simp only [List.mem_cons, List.not_mem_nil, or_false] at hmem
      rcases hmem with rfl | rfl
      · exact .planning baseline
      · exact .plain (by decide)
    refine works_bind hw (works_move hw hjob hmove) fun moved s₁ hw₁ _ h₁ => ?_
    refine works_bind hw₁ (works_getJob hw₁) fun latest s₂ hw₂ hs₂ hlatest => ?_
    have hnext := ih (fun x hx => hstates (List.mem_cons_of_mem _ hx)) hw₂ (h₁.known.later hs₂)
    cases latest with
    | none => exact hnext
    | some latest =>
      exact works_ite (fun _ => works_lastMove hw₂ (hlatest latest rfl) (by decide)) fun _ => hnext

theorem works_moveFrom {job : Job} {state next : JobState} (hw : s.WellFormed) (hk : Knows job s)
    (h : next ∈ [JobState.queued, .ingesting, .executing, .testing, .collecting, .cancelled,
      .timedOut, .failed]) : Works H P (moveFrom cfg state next job) Knows s := by
  refine works_ite (fun _ => ?_) fun _ => works_pure hw fun _ _ hs => hk.later hs
  exact works_weaken (works_move hw hk (.plain h)) fun _ _ h => h.known

theorem works_attempt {args : RunArgs} {job : Job} {startedAt deadline : Time} (hw : s.WellFormed)
    (hk : Knows job s) :
    Works H P (attempt P cfg args job startedAt deadline) (fun _ _ => True) s := by
  refine works_bind hw (works_moveFrom hw hk (by decide)) fun job₁ s₁ hw₁ _ h₁ => ?_
  refine works_bind hw₁ (works_moveFrom hw₁ h₁ (by decide)) fun job₂ s₂ hw₂ _ h₂ => ?_
  refine works_bind hw₂ (works_captureBaseline hw₂) fun baseline s₃ hw₃ hs₃ _ => ?_
  refine works_bind hw₃ (works_get hw₃) fun w s₄ hw₄ hs₄ _ => ?_
  exact works_announce (fun _ _ hw _ => works_execute hw) (List.Subset.refl _) hw₄
    ((h₂.later hs₃).later hs₄)

theorem works_recoverLatest {args : RunArgs} {fault : WorkerFault} {latest : Job}
    (hw : s.WellFormed) (hk : Knows latest s) :
    Works H P (recoverLatest cfg args fault latest) (fun _ _ => True) s := by
  refine works_ite (fun _ => works_raise hw) fun _ => ?_
  refine works_ite (fun _ => works_lastMove hw hk (by decide)) fun _ => ?_
  cases fault with
  | agentDeadline => exact works_lastMove hw hk (by decide)
  | _ =>
    refine works_bind hw (works_move hw hk (.plain (by decide))) fun _ s₁ hw₁ _ _ => ?_
    exact works_bind hw₁ (works_appendEvent hw₁) fun _ s₂ hw₂ _ _ =>
      works_pure hw₂ fun _ _ _ => trivial

theorem works_recover {args : RunArgs} {fault : WorkerFault} (hw : s.WellFormed) :
    Works H P (recover cfg args fault) (fun _ _ => True) s := by
  cases fault with
  | promotionRecoveryRequired code => exact works_raise hw
  | _ =>
    refine works_bind hw (works_getJob hw) fun latest s₁ hw₁ _ hlatest => ?_
    cases latest with
    | none => exact works_raise hw₁
    | some latest => exact works_recoverLatest hw₁ (hlatest latest rfl)

theorem works_removeSnapshotTrees {paths : List String} : ∀ {s : MemoryJobStore}, s.WellFormed →
    Works H P (removeSnapshotTrees paths) (fun _ _ => True) s := by
  induction paths with
  | nil => exact fun hw => works_pure hw fun _ _ _ => trivial
  | cons path rest ih =>
    exact fun hw => works_bind hw (works_ask hw) fun _ _ hw' _ _ => ih hw'

theorem works_recoveryContext (hw : s.WellFormed) :
    Works H P (recoveryContext cfg) (fun _ _ => True) s :=
  works_ite (fun _ => works_ask hw) fun _ => works_pure hw fun _ _ _ => trivial

theorem works_cleanup {preserve : Bool} (hw : s.WellFormed) :
    Works H P (cleanup cfg preserve) (fun _ _ => True) s := by
  refine works_bind hw (works_recoveryContext hw) fun recovering s₁ hw₁ _ _ => ?_
  refine works_bind hw₁ (works_get hw₁) fun w s₂ hw₂ _ _ => ?_
  exact works_ite (fun _ => works_pure hw₂ fun _ _ _ => trivial) fun _ =>
    works_removeSnapshotTrees hw₂

theorem works_guarded {args : RunArgs} {job : Job} {startedAt deadline : Time} (hw : s.WellFormed)
    (hk : Knows job s) :
    Works H P (guarded P cfg args job startedAt deadline) (fun _ _ => True) s := by
  refine works_bind hw (M := fun _ _ => True) ?_ fun outcome s₁ hw₁ _ _ => ?_
  · refine works_handle ?_ fun _ _ hw' => works_pure hw' fun _ _ _ => trivial
    refine works_bind hw (M := fun _ _ => True) ?_ fun _ _ hw' _ _ =>
      works_pure hw' fun _ _ _ => trivial
    exact works_handle (works_attempt hw hk) fun _ _ hw' => works_recover hw'
  cases outcome with
  | ok job =>
    exact works_bind hw₁ (works_cleanup hw₁) fun _ _ hw' _ _ => works_pure hw' fun _ _ _ => trivial
  | error e => exact works_bind hw₁ (works_cleanup hw₁) fun _ _ hw' _ _ => works_raise hw'

/-- A run of the workflow makes only the calls of `WorkerCall`. -/
theorem works_runJob {args : RunArgs} (hw : s.WellFormed) :
    Works H P (runJob P cfg args) (fun _ _ => True) s := by
  refine works_bind hw (works_getJob hw) fun job s₁ hw₁ _ hjob => ?_
  cases job with
  | none => exact works_raise hw₁
  | some job =>
    have hk := hjob job rfl
    refine works_ite (fun _ => works_pure hw₁ fun _ _ _ => trivial) fun _ => ?_
    refine works_ite (fun _ => works_lastMove hw₁ hk (by decide)) fun _ => ?_
    refine works_ite (fun _ => works_raise hw₁) fun _ => ?_
    refine works_bind hw₁ (works_ask hw₁) fun startedAt s₂ hw₂ hs₂ _ => ?_
    refine works_bind hw₂ (works_ask hw₂) fun now s₃ hw₃ hs₃ _ => ?_
    exact works_guarded hw₃ ((hk.later hs₂).later hs₃)

end LilTweak.Orchestrator
