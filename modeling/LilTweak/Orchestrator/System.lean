import LilTweak.Orchestrator.Works

/-!
# The core as a system

One store, any number of runs of the workflow, and the rest of the core: the API,
the scheduler, the source intake and the owner's decisions. Any of them takes the
next step; a run may stop for good between any two of its calls. Every run of
the system is, on the store, a run of calls from outside and guarded calls of
the workflow.
-/

namespace LilTweak.Orchestrator

open LilTweak.Lib LilTweak.Core LilTweak.Store LilTweak.Evidence

/-- A run of the workflow between two of its steps. -/
abbrev Pending := Prog Query Query.Answer (Except WorkerFault Job × Attempt)

structure System where
  store : MemoryJobStore := {}
  runs : Dict Nat Pending := ∅

/-- A transition that only changes the state: to the queue, into intake, or to failure. -/
structure PlainTransition (u : JobUpdate) : Prop where
  state : u.state = .queued ∨ u.state = .ingesting ∨ u.state = .failed
  proposalDigest : u.proposalDigest = none
  evidenceManifest : u.evidenceManifest = none
  summary : u.summary = none
  sourceDigest : u.sourceDigest = none
  approvalProposal : u.approvalProposal = none
  approvalConsumed : u.approvalConsumed = false

/-- The calls the rest of the core makes. -/
def Outside : StoreOp → Prop
  | .updateJob _ | .createApproval _ | .consumeApproval _ | .recordDecision _ _ _ _ => False
  | .transitionJob u _ _ => PlainTransition u
  | _ => True

/-- Who takes the next step. -/
inductive Action
  | call (c : Call)
  | start (run : Nat) (cfg : EngineeringOrchestrator) (args : RunArgs) (lease : Option JobLease)
  | resume (run : Nat) (clk : Clock)
  | serve (run : Nat)
  | crash (run : Nat)

variable (H : Hashes) (P : Platform)

/-- One step of the system. -/
inductive SystemStep (w : System) : Action → System → Prop
  | call {c : Call} (hout : Outside c.op) (hfresh : c.fresh w.store) :
      SystemStep w (.call c) { w with store := (exec H w.store c.op c.clk).2 }
  | start {n cfg args lease} :
      SystemStep w (.start n cfg args lease)
        { w with runs := w.runs.set n (runJob P cfg args { lease }) }
  | resume {n clk op k} (hrun : w.runs.get? n = some (.ask (.store op) k)) :
      SystemStep w (.resume n clk)
        { store := (exec H w.store op clk).2
          runs := w.runs.set n (k (exec H w.store op clk).1) }
  | serve {n sv k} (a : (Query.service sv).Answer)
      (hrun : w.runs.get? n = some (.ask (.service sv) k)) :
      SystemStep w (.serve n) { w with runs := w.runs.set n (k a) }
  | crash {n} : SystemStep w (.crash n) { w with runs := w.runs.erase n }

/-- A call from outside or a guarded call of the workflow. -/
def CoreStep (s : MemoryJobStore) (c : Call) (s' : MemoryJobStore) : Prop :=
  StoreStep H s c s' ∧ (Outside c.op ∨ WorkerCall P s c.op)

variable {H P}

/-- The store keeps its links and every run can go on. -/
structure Sound (w : System) : Prop where
  wellFormed : w.store.WellFormed
  runs : ∀ n p, w.runs.get? n = some p → p.Safe (storeProtocol H P) (fun _ _ => True) w.store

theorem sound_start : Sound (H := H) (P := P) {} where
  wellFormed := MemoryJobStore.wellFormed_empty
  runs _ _ h := by cases h

/-- A step is a call on the store or leaves it alone, and every run can still go on. -/
theorem SystemStep.sound {w w' : System} {a : Action} (h : SystemStep H P w a w')
    (hw : Sound (H := H) (P := P) w) :
    Sound (H := H) (P := P) w' ∧ (w'.store = w.store ∨ ∃ c, CoreStep H P w.store c w'.store) := by
  -- The other runs only see a change they rely on.
  have others : ∀ {s' : MemoryJobStore} {n : Nat} {p : Pending}, (storeProtocol H P).rely w.store s' →
      p.Safe (storeProtocol H P) (fun _ _ => True) s' → ∀ m q, (w.runs.set n p).get? m = some q →
      q.Safe (storeProtocol H P) (fun _ _ => True) s' := by
    intro s' n p hs hp m q hq
    rw [Dict.get?_set] at hq
    split at hq
    · exact Option.some.inj hq ▸ hp
    · exact (hw.runs m q hq).later hs
  have same := (storeProtocol H P).refl w.store
  cases h with
  | @call c hout hfresh =>
    have hstep : StoreStep H w.store c (exec H w.store c.op c.clk).2 := ⟨hfresh, rfl⟩
    have hw' := hstep.wellFormed hw.wellFormed
    refine ⟨⟨hw', fun n p hp => ?_⟩, .inr ⟨c, hstep, .inl hout⟩⟩
    exact (hw.runs n p hp).later fun _ => ⟨hw', hstep.continues hw.wellFormed⟩
  | @start n cfg args lease =>
    refine ⟨⟨hw.wellFormed, others same ?_⟩, .inl rfl⟩
    exact Prog.Safe.weaken (fun _ _ _ => trivial)
      (works_runJob hw.wellFormed { lease })
  | @resume n clk op k hrun =>
    obtain ⟨hguard, hnext⟩ := hw.runs n _ hrun _ same
    have hstep : StoreStep H w.store ⟨op, clk⟩ (exec H w.store op clk).2 :=
      WorkerCall.step hguard rfl
    have hw' := hstep.wellFormed hw.wellFormed
    refine ⟨⟨hw', others (fun _ => ⟨hw', hstep.continues hw.wellFormed⟩) ?_⟩,
      .inr ⟨⟨op, clk⟩, hstep, .inr hguard⟩⟩
    exact hnext _ _ ⟨clk, rfl⟩
  | @serve n sv k a hrun =>
    exact ⟨⟨hw.wellFormed, others same ((hw.runs n _ hrun _ same).2 a _ rfl)⟩, .inl rfl⟩
  | @crash n =>
    refine ⟨⟨hw.wellFormed, fun m q hq => ?_⟩, .inl rfl⟩
    rw [Dict.get?_erase] at hq
    split at hq
    · cases hq
    · exact hw.runs m q hq

theorem run_sound {w : System} {actions : List Action} (h : Run (SystemStep H P) {} actions w) :
    Sound (H := H) (P := P) w :=
  h.preserves (fun _ _ _ _ hw hstep => (hstep.sound hw).1) sound_start

/-- Every run of the system is, on its store, a run of outside and guarded calls. -/
theorem run_calls {w w' : System} {actions : List Action} (h : Run (SystemStep H P) w actions w')
    (hw : Sound (H := H) (P := P) w) : ∃ calls, Run (CoreStep H P) w.store calls w'.store := by
  induction h with
  | nil _ => exact ⟨[], .nil _⟩
  | cons hstep _ ih =>
    obtain ⟨hw', hstore⟩ := hstep.sound hw
    obtain ⟨calls, hcalls⟩ := ih hw'
    rcases hstore with hsame | ⟨c, hc⟩
    · exact ⟨calls, hsame ▸ hcalls⟩
    · exact ⟨c :: calls, .cons hc hcalls⟩

theorem CoreStep.wellFormed {s s' : MemoryJobStore} {c : Call} (h : CoreStep H P s c s')
    (hw : s.WellFormed) : s'.WellFormed := h.1.wellFormed hw

theorem coreRun_wellFormed {s s' : MemoryJobStore} {calls : List Call}
    (h : Run (CoreStep H P) s calls s') (hw : s.WellFormed) : s'.WellFormed :=
  h.preserves (fun _ _ _ _ hs hstep => hstep.wellFormed hs) hw

/-- A transition of a stored job is plain, or a move a run makes from this very job. -/
theorem CoreStep.update {s s' : MemoryJobStore} {c : Call} (h : CoreStep H P s c s')
    (hw : s.WellFormed) {id : JobId} {job : Job} {u : JobUpdate} (hjob : s.jobs.get? id = some job)
    (hop : c.op = .updateJob u ∨ ∃ kind data, c.op = .transitionJob u kind data)
    (hid : u.jobId = job.id) (hrev : (job.revision : Int) = u.expectedRevision) :
    PlainTransition u ∨ ∃ cfg m, u = m.update job u.lease ∧ RunMove P cfg job m := by
  obtain ⟨-, hcall⟩ := h
  rcases hop with hop | ⟨kind, data, hop⟩
  · rw [hop] at hcall
    exact hcall.elim False.elim False.elim
  · rw [hop] at hcall
    refine hcall.imp_right ?_
    rintro ⟨cfg, known, m, hu, -, -, ⟨current, hcur, -, hsame⟩, hmove⟩
    have hsameId : known.id = job.id := by rw [← hid, hu]; rfl
    rw [hsameId, hw.ids id job hjob, hjob] at hcur
    obtain rfl := Option.some.inj hcur
    have hsameRev : (job.revision : Int) = known.revision := by rw [hrev, hu]; rfl
    obtain rfl := hsame (by omega)
    exact ⟨cfg, m, hu, hmove⟩

/-! ## Running the system -/

/-- What the services answer a run. -/
abbrev Oracle := (sv : Service) → (Query.service sv).Answer

/-- A step of the system with what it takes to perform it. -/
inductive Input
  | call (c : Call) (h : Outside c.op)
  | start (run : Nat) (cfg : EngineeringOrchestrator) (args : RunArgs) (lease : Option JobLease)
  | resume (run : Nat) (clk : Clock)
  | serve (run : Nat) (oracle : Oracle)

/-- Who takes the step. -/
def Input.action : Input → Action
  | .call c _ => .call c
  | .start run cfg args lease => .start run cfg args lease
  | .resume run clk => .resume run clk
  | .serve run _ => .serve run

section
variable (H : Hashes) (P : Platform)

/-- The id of a created job is not in use. -/
def isFresh (s : MemoryJobStore) : StoreOp → Bool
  | .createJob _ uuid => (s.jobs.get? uuid).isNone
  | _ => true

/-- Perform a step, when it is the one the system can take. -/
def System.step? (w : System) : Input → Option System
  | .call c _ =>
    if isFresh w.store c.op then some { w with store := (exec H w.store c.op c.clk).2 } else none
  | .start run cfg args lease =>
    some { w with runs := w.runs.set run (runJob P cfg args { lease }) }
  | .resume run clk =>
    match w.runs.get? run with
    | some (.ask (.store op) k) =>
      some { store := (exec H w.store op clk).2
             runs := w.runs.set run (k (exec H w.store op clk).1) }
    | _ => none
  | .serve run oracle =>
    match w.runs.get? run with
    | some (.ask (.service sv) k) => some { w with runs := w.runs.set run (k (oracle sv)) }
    | _ => none

/-- Perform steps in order. -/
def System.run? (w : System) : List Input → Option System
  | [] => some w
  | i :: rest => (w.step? H P i).bind fun w => w.run? rest

end

theorem step?_step {w w' : System} {i : Input} (h : w.step? H P i = some w') :
    SystemStep H P w i.action w' := by
  cases i with
  | call c hout =>
    simp only [System.step?] at h
    split at h
    · next hfresh =>
      obtain rfl := Option.some.inj h
      refine .call hout ?_
      unfold Call.fresh
      split
      · next hop =>
        rw [hop] at hfresh
        exact Option.isNone_iff_eq_none.mp hfresh
      · trivial
    · cases h
  | start run cfg args lease =>
    obtain rfl := Option.some.inj h
    exact .start
  | resume run clk =>
    simp only [System.step?] at h
    split at h
    · next hrun =>
      obtain rfl := Option.some.inj h
      exact .resume hrun
    · cases h
  | serve run oracle =>
    simp only [System.step?] at h
    split at h
    · next hrun =>
      obtain rfl := Option.some.inj h
      exact .serve _ hrun
    · cases h

theorem run?_run {inputs : List Input} : ∀ {w w' : System}, w.run? H P inputs = some w' →
    Run (SystemStep H P) w (inputs.map Input.action) w' := by
  induction inputs with
  | nil =>
    intro w w' h
    obtain rfl := Option.some.inj h
    exact .nil _
  | cons i rest ih =>
    intro w w' h
    obtain ⟨mid, hmid, hrest⟩ := Option.bind_eq_some_iff.mp h
    exact .cons (step?_step hmid) (ih hrest)

end LilTweak.Orchestrator
