import LilTweak.Lib.Contract
import LilTweak.Orchestrator.Completion

/-!
# What an attempt leaves its job in

A run of the workflow with a lease that stays current, beside others that may
cancel its job at any time and do what they like to the other jobs. Whatever the
agent, the evidence store and the verifier answer, the run leaves its job
terminal or awaiting approval, unless the last move it makes is overtaken by a
cancellation; and it does so exactly for the jobs that get past the one check
that stands before the `try`.
-/

namespace LilTweak.Orchestrator

open LilTweak.Lib LilTweak.Core LilTweak.Store LilTweak.Evidence
open Relation (ReflTransGen)

/-- The job is terminal or waits for its owner. -/
def Resolved (args : RunArgs) (s : MemoryJobStore) : Prop :=
  ∃ job, s.jobs.get? args.jobId = some job ∧
    (job.state.terminal = true ∨ job.state = .awaitingApproval)

/-- The check before the `try` refuses the job: its verified source identity is
asked for and not given. -/
def Unidentified (cfg : EngineeringOrchestrator) (args : RunArgs) (job : Job) : Prop :=
  job.cancelRequested = false ∧ cfg.runnerVerifier = true ∧ job.mode ≠ .chat ∧
    (job.gitSource = none ∨ args.workspace = false ∨ args.sourceCommit = none ∨
      args.sourceTree = none)

/-! ## The world of one attempt -/

/-- The store, and whether the last move of the run came with a revision that was
no longer the job's. -/
structure Watched where
  store : MemoryJobStore
  overtaken : Bool := false

/-- A claim with another end. -/
def extended (claim : JobLease) (t : Time) : JobLease := { claim with expiresAt := t }

/-- A call of somebody else: it leaves the claim on the job in place, a heartbeat at
most extends it, and all it does to the job is to cancel it. -/
def Bystander (H : Hashes) (jobId : JobId) (s s' : MemoryJobStore) : Prop :=
  ∃ c, StoreStep H s c s' ∧
    (∀ claim, s.claims.get? jobId = some claim →
      ∃ t, s'.claims.get? jobId = some (extended claim t)) ∧
    ∀ job, s.jobs.get? jobId = some job → s'.jobs.get? jobId = some job ∨
      job.state.terminal = false ∧ ∃ t, s'.jobs.get? jobId = some (cancelled job t)

/-- The claim on the job does not expire during a call. -/
def LeaseRuns (jobId : JobId) (s : MemoryJobStore) (clk : Clock) : Prop :=
  ∀ claim, s.claims.get? jobId = some claim → ∀ k, clk k < claim.expiresAt

/-- Whether a call is a move from a revision that is no longer the job's. -/
def Watched.judge (w : Watched) : StoreOp → Bool
  | .transitionJob u _ _ =>
    match w.store.jobs.get? u.jobId with
    | some job => decide ((job.revision : Int) ≠ u.expectedRevision)
    | none => false
  | _ => w.overtaken

/-- Anything a service may do but promotion recovery; the clocks do not raise. -/
def Ordinary : (sv : Service) → (Query.service sv).Answer → Prop
  | .clock, a | .monotonic, a => ∃ t : Time, a = .ok t
  | .recoveryContextExists, a =>
    a ≠ .ok true ∧ ∀ code, a ≠ .error (.promotionRecoveryRequired code)
  | .removeSnapshotTree _, a | .captureWorkspace _, a | .fetchGalor _, a | .runAgent .., a
  | .captureFinalSnapshot _ _, a | .verifyRunner .., a | .commandEvidence, a
  | .editJournalEvidence, a | .buildBundle .., a | .putEvidence .., a =>
    ∀ code, a ≠ .error (.promotionRecoveryRequired code)

/-- The run has its store and its lease; others only come by. -/
def attemptProtocol (H : Hashes) (args : RunArgs) : Protocol Query Query.Answer Watched where
  rely w w' := ReflTransGen (Bystander H args.jobId) w.store w'.store ∧ w'.overtaken = w.overtaken
  answers w q a w' :=
    match q, a with
    | .store op, a => (∃ clk, LeaseRuns args.jobId w.store clk ∧
        exec H w.store op clk = (a, w'.store)) ∧ w'.overtaken = w.judge op
    | .service sv, a => w' = w ∧ Ordinary sv a
  guard _ _ := True
  refl _ := ⟨.refl, rfl⟩
  trans h h' := ⟨h.1.trans h'.1, h'.2.trans h.2⟩

/-- The run holds the claim on its job with the lease it carries. -/
structure Attached (args : RunArgs) (l : Attempt) (w : Watched) : Prop where
  wellFormed : w.store.WellFormed
  job : ∃ job, w.store.ownedJob args.jobId args.ownerId = some job
  lease : ∃ lease claim, l.lease = some lease ∧ lease.jobId = args.jobId ∧
    lease.ownerId = args.ownerId ∧ w.store.claims.get? args.jobId = some claim ∧
    claim.jobId = args.jobId ∧ MemoryJobStore.sameLease claim lease = true

section
variable {H : Hashes} {P : Platform} {cfg : EngineeringOrchestrator} {args : RunArgs}
  {s s' : MemoryJobStore} {w w' : Watched} {l : Attempt} {α β : Type}

/-! ## What others leave alone -/

theorem Bystander.resolved (h : Bystander H args.jobId s s') (hs : Resolved args s) :
    Resolved args s' := by
  obtain ⟨job, hjob, hstate⟩ := hs
  obtain ⟨c, -, -, hwrite⟩ := h
  rcases hwrite job hjob with hsame | ⟨hlive, t, hcancelled⟩
  · exact ⟨job, hsame, hstate⟩
  · refine ⟨_, hcancelled, Or.inl ?_⟩
    rcases hstate with hterminal | hawaiting
    · rw [hterminal] at hlive
      cases hlive
    · rw [Store.cancelled, hawaiting]
      rfl

theorem Bystander.continues (h : Bystander H args.jobId s s') (hw : s.WellFormed) :
    s'.WellFormed ∧ Continues s s' := by
  obtain ⟨c, hstep, -⟩ := h
  exact ⟨hstep.wellFormed hw, hstep.continues hw⟩

theorem Bystander.owned (h : Bystander H args.jobId s s')
    (hs : ∃ job, s.ownedJob args.jobId args.ownerId = some job) :
    ∃ job, s'.ownedJob args.jobId args.ownerId = some job := by
  obtain ⟨job, hjob⟩ := hs
  obtain ⟨hget, howner⟩ := MemoryJobStore.ownedJob_eq_some.mp hjob
  obtain ⟨c, -, -, hwrite⟩ := h
  rcases hwrite job hget with hsame | ⟨-, t, hcancelled⟩
  · exact ⟨job, MemoryJobStore.ownedJob_eq_some.mpr ⟨hsame, howner⟩⟩
  · exact ⟨_, MemoryJobStore.ownedJob_eq_some.mpr ⟨hcancelled, howner⟩⟩

section
variable (h : ReflTransGen (Bystander H args.jobId) s s')
include h

theorem others_resolved (hs : Resolved args s) : Resolved args s' := by
  induction h with
  | refl => exact hs
  | tail _ hstep ih => exact hstep.resolved ih

theorem others_continue (hw : s.WellFormed) : s'.WellFormed ∧ Continues s s' := by
  induction h with
  | refl => exact ⟨hw, Continues.refl _⟩
  | tail _ hstep ih =>
    obtain ⟨hwf, hcont⟩ := hstep.continues ih.1
    exact ⟨hwf, ih.2.trans hcont⟩

theorem others_owned (hs : ∃ job, s.ownedJob args.jobId args.ownerId = some job) :
    ∃ job, s'.ownedJob args.jobId args.ownerId = some job := by
  induction h with
  | refl => exact hs
  | tail _ hstep ih => exact hstep.owned ih

theorem others_claim {claim : JobLease} (hs : s.claims.get? args.jobId = some claim) :
    ∃ t, s'.claims.get? args.jobId = some (extended claim t) := by
  induction h with
  | refl => exact ⟨claim.expiresAt, hs⟩
  | tail _ hstep ih =>
    obtain ⟨t, ht⟩ := ih
    obtain ⟨c, -, hkept, -⟩ := hstep
    obtain ⟨t', ht'⟩ := hkept _ ht
    exact ⟨t', ht'⟩

end

theorem Attached.later (h : Attached args l w) (hr : (attemptProtocol H args).rely w w') :
    Attached args l w' := by
  obtain ⟨lease, claim, hl, hid, howner, hclaim, hcid, hsame⟩ := h.lease
  obtain ⟨t, hextended⟩ := others_claim hr.1 hclaim
  constructor
  · exact (others_continue hr.1 h.wellFormed).1
  · exact others_owned hr.1 h.job
  · exact ⟨lease, extended claim t, hl, hid, howner, hextended, hcid, hsame⟩

/-! ## The run's own calls -/

/-- The store calls a run makes for its job. -/
def OwnCall (args : RunArgs) : StoreOp → Prop
  | .getJob _ _ | .appendEvent _ _ _ _ => True
  | .renewClaim lease _ _ => lease.jobId = args.jobId
  | .transitionJob u _ _ => u.jobId = args.jobId
  | _ => False

/-- A call of the run raises and changes nothing, or has its effect. -/
theorem ownCall_cases {op : StoreOp} {clk : Clock} {a : Except StoreFault Reply}
    (hw : s.WellFormed) (h : exec H s op clk = (a, s')) :
    (∃ e, a = .error e ∧ s' = s) ∨ ∃ r, a = .ok r ∧ Effect H s op clk r s' := by
  rcases exec_effect (H := H) hw op clk with ⟨e, he⟩ | ⟨r, t, hr, heff⟩
  · rw [he] at h
    cases h
    exact Or.inl ⟨e, rfl, rfl⟩
  · rw [hr] at h
    cases h
    exact Or.inr ⟨r, rfl, heff⟩

theorem ownCall_step {op : StoreOp} {clk : Clock} {a : Except StoreFault Reply}
    (hown : OwnCall args op) (h : exec H s op clk = (a, s')) : StoreStep H s ⟨op, clk⟩ s' := by
  constructor
  · cases op <;> trivial
  · rw [h]

/-- The run's own calls leave its claim in place. -/
theorem Attached.own {op : StoreOp} {clk : Clock} {a : Except StoreFault Reply}
    (h : Attached args l w) (hown : OwnCall args op)
    (hexec : exec H w.store op clk = (a, w'.store)) : Attached args l w' := by
  obtain ⟨stored, flag⟩ := w'
  have hstep := ownCall_step hown hexec
  obtain ⟨lease, claim, hl, hid, howner, hclaim, hcid, hsame⟩ := h.lease
  obtain ⟨job, hjob⟩ := h.job
  have hwf := hstep.wellFormed h.wellFormed
  rcases ownCall_cases h.wellFormed hexec with ⟨e, -, rfl⟩ | ⟨r, -, heff⟩
  · exact ⟨hwf, ⟨job, hjob⟩, lease, claim, hl, hid, howner, hclaim, hcid, hsame⟩
  · obtain ⟨hget, hjowner⟩ := MemoryJobStore.ownedJob_eq_some.mp hjob
    cases op with
    | getJob jobId ownerId =>
      cases heff with
      | read hread =>
        exact ⟨hwf, ⟨job, hjob⟩, lease, claim, hl, hid, howner, hclaim, hcid, hsame⟩
    | appendEvent jobId ownerId kind data =>
      cases heff with
      | read hread => cases hread
      | eventAppended hsome =>
        exact ⟨hwf, ⟨job, hjob⟩, lease, claim, hl, hid, howner, hclaim, hcid, hsame⟩
    | renewClaim own seconds now =>
      have hownId : own.jobId = args.jobId := hown
      cases heff with
      | read hread => cases hread
      | renewed hpos hcurrent hheld hlive =>
        rw [hownId] at hcurrent
        obtain rfl := Option.some.inj (hclaim.symm.trans hcurrent)
        refine ⟨hwf, ⟨job, hjob⟩, lease, { claim with expiresAt := now.getD (clk 0) + seconds },
          hl, hid, howner, ?_, hcid, hsame⟩
        rw [hownId]
        exact Dict.get?_set_self ..
    | transitionJob u kind data =>
      have hownId : u.jobId = args.jobId := hown
      cases heff with
      | read hread => cases hread
      | @transitioned _ _ _ _ current target v hcurrent hcowner hrev hlease ht =>
        rw [hownId] at hcurrent
        obtain rfl := Option.some.inj (hget.symm.trans hcurrent)
        refine ⟨hwf, ⟨u.apply job target (clk 0), ?_⟩, lease, claim, hl, hid, howner, hclaim,
          hcid, hsame⟩
        rw [MemoryJobStore.ownedJob_eq_some]
        refine ⟨?_, hjowner⟩
        rw [hownId]
        exact Dict.get?_set_self ..
    | _ => exact hown.elim

/-! ## The contracts of an attempt -/

/-- An attempt keeps its claim; `raises` says what holds where it raises. -/
def attemptContract (H : Hashes) (args : RunArgs) (raises : WorkerFault → Watched → Prop) :
    Contract (attemptProtocol H args) Attempt WorkerFault where
  inv := Attached args
  raises := raises
  stable := Attached.later

/-- An exception that the handler takes. -/
def Handled (e : WorkerFault) (_ : Watched) : Prop := ∀ code, e ≠ .promotionRecoveryRequired code

/-- The job is resolved, or the last move was overtaken. -/
def Ends (args : RunArgs) (w : Watched) : Prop := w.overtaken = false → Resolved args w.store

/-- The body of the `try`. -/
abbrev tries (H : Hashes) (args : RunArgs) : Contract (attemptProtocol H args) Attempt WorkerFault :=
  attemptContract H args Handled

/-- The run as a whole. -/
abbrev ends (H : Hashes) (args : RunArgs) : Contract (attemptProtocol H args) Attempt WorkerFault :=
  attemptContract H args fun _ => Ends args

variable {raises : WorkerFault → Watched → Prop} {pre : Watched → Prop}

theorem stable_resolved : (attemptContract H args raises).Stable fun w => Resolved args w.store :=
  fun _ _ _ _ hs hr => others_resolved hr.1 hs

theorem stable_ends : (attemptContract H args raises).Stable (Ends args) := by
  intro l w w' _ hends hr hfree
  rw [hr.2] at hfree
  exact others_resolved hr.1 (hends hfree)

theorem stable_knows {job : Job} :
    (attemptContract H args raises).Stable fun w => Knows job w.store :=
  fun _ _ _ hinv hk hr => hk.later (others_continue hr.1 hinv.wellFormed).2

theorem stable_attached {l' : Attempt} : (attemptContract H args raises).Stable (Attached args l') :=
  fun _ _ _ _ hl hr => hl.later hr

theorem stable_and {p q : Watched → Prop} (hp : (attemptContract H args raises).Stable p)
    (hq : (attemptContract H args raises).Stable q) :
    (attemptContract H args raises).Stable fun w => p w ∧ q w :=
  fun l w w' hinv h hr => ⟨hp l w w' hinv h.1 hr, hq l w w' hinv h.2 hr⟩

theorem stable_const {p : Prop} : (attemptContract H args raises).Stable fun _ => p :=
  fun _ _ _ _ h _ => h

/-! ## Questions -/

/-- What holds where a store call is read: its exception, its value, or a reply of
another shape. -/
def Answered (raises : WorkerFault → Watched → Prop) (read : Reply → Option α)
    (post : α → Watched → Prop) (w : Watched) : Except StoreFault Reply → Prop
  | .error e => raises (.store e) w
  | .ok r =>
    match read r with
    | some a => post a w
    | none => raises .other w

/-- A store call of the run, judged by what the call does. -/
theorem triple_callStore {op : StoreOp} {read : Reply → Option α} {post : α → Watched → Prop}
    (hown : OwnCall args op) (hpre : (attemptContract H args raises).Stable pre)
    (hpost : ∀ a, (attemptContract H args raises).Stable (post a))
    (hraises : ∀ e, (attemptContract H args raises).Stable (raises e))
    (h : ∀ l w clk a w', Attached args l w → pre w → LeaseRuns args.jobId w.store clk →
      exec H w.store op clk = (a, w'.store) → w'.overtaken = w.judge op →
      Attached args l w' → Answered raises read post w' a) :
    (attemptContract H args raises).Triple pre (callStore op read) post := by
  have hstable (a : Except StoreFault Reply) :
      (attemptContract H args raises).Stable fun w => Answered raises read post w a := by
    cases a with
    | error e => exact hraises (.store e)
    | ok r =>
      cases hread : read r with
      | some a =>
        intro l w w' hinv hw hr
        simp only [Answered, hread] at hw ⊢
        exact hpost a l w w' hinv hw hr
      | none =>
        intro l w w' hinv hw hr
        simp only [Answered, hread] at hw ⊢
        exact hraises .other l w w' hinv hw hr
  refine Contract.triple_bind (?_ : (attemptContract H args raises).Triple pre
    ((question (.store op)).bind (orRaise WorkerFault.store))
      fun r w => Answered raises read post w (.ok r)) ?_
  · have hasked : (attemptContract H args raises).Triple pre (question (.store op))
        fun a w => Answered raises read post w a := by
      refine Contract.triple_query hpre (fun a => hstable a) ?_
      intro l w hinv hw
      constructor
      · trivial
      · rintro a w' ⟨⟨clk, hruns, hexec⟩, hjudge⟩
        have hinv' : Attached args l w' := hinv.own hown hexec
        exact ⟨hinv', h l w clk a w' hinv hw hruns hexec hjudge hinv'⟩
    apply Contract.triple_bind hasked
    intro a
    cases a with
    | error e => exact Contract.triple_raise (hraises (.store e)) fun _ hw => hw
    | ok r => exact Contract.triple_pure (hstable (.ok r)) fun _ hw => hw
  · intro r
    unfold readReply
    cases hread : read r with
    | some a =>
      simp only [Answered, hread]
      exact Contract.triple_pure (hpost a) fun _ hw => hw
    | none =>
      simp only [Answered, hread]
      exact Contract.triple_raise (hraises .other) fun _ hw => hw

/-- A service answers or raises, and the store is as it was. -/
theorem triple_ask {sv : Service} (hpre : (attemptContract H args raises).Stable pre)
    (hraises : ∀ e, (attemptContract H args raises).Stable (raises e))
    (h : ∀ e w, Ordinary sv (.error e) → pre w → raises e w) :
    (attemptContract H args raises).Triple pre (ask sv)
      fun a w => Ordinary sv (.ok a) ∧ pre w := by
  have hasked : (attemptContract H args raises).Triple pre (question (.service sv))
      fun a w => Ordinary sv a ∧ pre w := by
    refine Contract.triple_query hpre (fun a => stable_and stable_const hpre) ?_
    intro l w hinv hw
    constructor
    · trivial
    · rintro a w' ⟨rfl, hordinary⟩
      exact ⟨hinv, hordinary, hw⟩
  apply Contract.triple_bind hasked
  intro a
  cases a with
  | error e => exact Contract.triple_raise (hraises e) fun w hw => h e w hw.1 hw.2
  | ok a => exact Contract.triple_pure (stable_and stable_const hpre) fun _ hw => hw

/-! ## The store calls of the workflow -/

/-- A job of this run. -/
def Mine (args : RunArgs) (job : Job) : Prop := job.id = args.jobId ∧ job.ownerId = args.ownerId

theorem stable_handled (e : WorkerFault) :
    (attemptContract H args raises).Stable (Handled e) := stable_const

/-- Reading the own job finds it; `fact` is what is known of the stored job. -/
theorem triple_getJob {p : Job → Prop} (hpre : (attemptContract H args raises).Stable pre)
    (hraises : ∀ e, (attemptContract H args raises).Stable (raises e))
    (hfact : ∀ w job, pre w → w.store.jobs.get? args.jobId = some job → p job) :
    (attemptContract H args raises).Triple pre (getJob args.jobId args.ownerId) fun r w =>
      ∃ job, r = some job ∧ Mine args job ∧ p job ∧ Knows job w.store ∧
        (job.state.terminal = true → Resolved args w.store) ∧ pre w := by
  have hown : OwnCall args (.getJob args.jobId args.ownerId) := trivial
  refine triple_callStore hown hpre ?_ hraises ?_
  · intro r l w w' hinv hr hrely
    obtain ⟨job, hjob, hmine, hf, hk, hterminal, hw⟩ := hr
    have hcont := (others_continue hrely.1 hinv.wellFormed).2
    exact ⟨job, hjob, hmine, hf, hk.later hcont, fun h => others_resolved hrely.1 (hterminal h),
      hpre l w w' hinv hw hrely⟩
  · intro l w clk a w' hinv hw _ hexec hjudge hinv'
    obtain ⟨job, howned⟩ := hinv.job
    obtain ⟨hget, howner⟩ := MemoryJobStore.ownedJob_eq_some.mp howned
    have hread : exec H w.store (.getJob args.jobId args.ownerId) clk =
        (.ok (.jobOption (some job)), w.store) := by
      rw [← howned]
      rfl
    rw [hread] at hexec
    obtain ⟨rfl, hstore⟩ := Prod.mk.inj hexec
    obtain rfl : w' = w := by
      obtain ⟨stored, flag⟩ := w'
      obtain rfl : w.store = stored := hstore
      obtain rfl : flag = w.overtaken := hjudge
      rfl
    exact ⟨job, rfl, ⟨hinv.wellFormed.ids _ job hget, howner⟩, hfact w' job hw hget,
      knows_stored hinv.wellFormed hget, fun h => ⟨job, hget, Or.inl h⟩, hw⟩

/-- A current lease is renewed. -/
theorem renewClaim_current {lease claim : JobLease} {clk : Clock} {seconds : Int}
    (hseconds : 0 < seconds) (hid : lease.jobId = args.jobId)
    (hclaim : s.claims.get? args.jobId = some claim)
    (hsame : MemoryJobStore.sameLease claim lease = true) (hlive : clk 0 < claim.expiresAt) :
    exec H s (.renewClaim lease seconds none) clk =
      (.ok (.lease (extended claim (clk 0 + seconds))),
        { s with claims := s.claims.set lease.jobId (extended claim (clk 0 + seconds)) }) := by
  have hgate : ¬(MemoryJobStore.sameLease claim lease = false ∨ claim.expiresAt ≤ clk 0) := by
    rw [hsame]
    rintro (h | h)
    · cases h
    · exact absurd hlive (not_lt.mpr h)
  rw [exec, MemoryJobStore.renewClaim, if_neg (not_le.mpr hseconds), hid, hclaim]
  dsimp only [Option.getD_none]
  rw [if_neg hgate]
  rfl

theorem sameLease_owner {claim lease : JobLease}
    (h : MemoryJobStore.sameLease claim lease = true) : claim.ownerId = lease.ownerId := by
  simp only [MemoryJobStore.sameLease, Bool.and_eq_true, beq_iff_eq] at h
  exact h.1.1

theorem sameLease_self (lease : JobLease) : MemoryJobStore.sameLease lease lease = true := by
  simp [MemoryJobStore.sameLease]

/-- Renewing the lease succeeds and touches nothing a lasting fact is about. -/
theorem triple_renewLease (hlease : 0 < cfg.leaseSeconds)
    (hpre : (attemptContract H args raises).Stable pre)
    (hraises : ∀ e, (attemptContract H args raises).Stable (raises e))
    (hkept : ∀ w w', w.store.WellFormed → Continues w.store w'.store → pre w → pre w') :
    (attemptContract H args raises).Triple pre (renewLease cfg) fun _ => pre := by
  apply Contract.triple_bind (Contract.triple_get hpre)
  intro own
  cases hown : own.lease with
  | none =>
    apply Contract.triple_pure hpre
    exact fun w hw => hw.2
  | some lease =>
    by_cases hid : lease.jobId = args.jobId
    · have hput (renewed : JobLease) : (attemptContract H args raises).Triple
          (fun w => Attached args { own with lease := some renewed } w ∧ pre w)
          (Act.put { own with lease := some renewed }) fun _ => pre := Contract.triple_put hpre
      have hcall : OwnCall args (.renewClaim lease cfg.leaseSeconds none) := hid
      refine Contract.triple_bind (triple_callStore hcall (stable_and stable_attached hpre)
        (fun renewed => stable_and stable_attached hpre) hraises ?_) hput
      intro l w clk a w' hinv hw hruns hexec _ hinv'
      obtain ⟨held, claim, hl, hlid, howner, hclaim, hcid, hsame⟩ := hw.1.lease
      obtain rfl := Option.some.inj (hown.symm.trans hl)
      have hcont := (ownCall_step hcall hexec).continues hinv.wellFormed
      rw [renewClaim_current hlease hid hclaim hsame (hruns claim hclaim 0)] at hexec
      obtain ⟨rfl, hstore⟩ := Prod.mk.inj hexec
      have hstored : w'.store.claims.get? args.jobId =
          some (extended claim (clk 0 + cfg.leaseSeconds)) := by
        rw [← hstore, hid]
        exact Dict.get?_set_self ..
      constructor
      · exact ⟨hinv'.wellFormed, hinv'.job, _, _, rfl, hcid,
          (sameLease_owner hsame).trans howner, hstored, hcid, sameLease_self _⟩
      · exact hkept w w' hinv.wellFormed hcont hw.2
    · intro l w hinv hw
      obtain ⟨held, claim, hl, hlid, -⟩ := hw.1.lease
      obtain rfl := Option.some.inj (hown.symm.trans hl)
      exact absurd hlid hid

/-- A transition that returned answers the job it stored in its state. -/
theorem transition_stored {u : JobUpdate} {kind : String} {data : Option JsonObj} {clk : Clock}
    {r : Reply} (hw : s.WellFormed)
    (h : exec H s (.transitionJob u kind data) clk = (.ok r, s')) :
    ∃ job', asJob r = some job' ∧ s'.jobs.get? u.jobId = some job' ∧ job'.state = u.state ∧
      job'.id = u.jobId := by
  rcases ownCall_cases hw h with ⟨e, he, -⟩ | ⟨r', hr', heff⟩
  · cases he
  · obtain rfl := Except.ok.inj hr'
    cases heff with
    | read hread => cases hread
    | transitioned hjob _ _ _ ht =>
      obtain ⟨rfl, -⟩ := transition_ok ht
      have hid := hw.ids _ _ hjob
      exact ⟨_, rfl, Dict.get?_set_self .., rfl, hid⟩

/-- A transition that meets every check returns. -/
theorem transition_answers {u : JobUpdate} {kind : String} {data : Option JsonObj} {clk : Clock}
    {current : Job} {target : JobState} {v : JsonObj} (hw : s.WellFormed)
    (hv : validatedEventData kind data = .ok v) (howned : s.ownedJob u.jobId u.ownerId = some current)
    (hrev : (current.revision : Int) = u.expectedRevision) (hlease : s.leaseAdmits u (clk 0) = true)
    (ht : transition current.state u.state u.evidence = .ok target) :
    ∃ r t, exec H s (.transitionJob u kind data) clk = (.ok r, t) := by
  obtain ⟨hjob, -⟩ := MemoryJobStore.ownedJob_eq_some.mp howned
  obtain ⟨log, hlog⟩ := hw.logged _ _ hjob
  simp only [exec, MemoryJobStore.transitionJob, hv, MemoryJobStore.updateJob, howned, hrev, hlease,
    ht, ne_eq, not_true_eq_false, if_false, Bool.true_eq_false, andThen_ok]
  rw [MemoryJobStore.appendEventLocked_eq (l := log) (by exact hlog), andThen_ok,
    reply_ok]
  exact ⟨_, _, rfl⟩

/-- The states a run may leave its job in. -/
def settles (state : JobState) : Bool := state.terminal || state == .awaitingApproval

theorem resolved_of_stored {job : Job} (hjob : s.jobs.get? args.jobId = some job)
    (h : settles job.state = true) : Resolved args s := by
  refine ⟨job, hjob, ?_⟩
  rw [settles, Bool.or_eq_true, beq_iff_eq] at h
  exact h

/-- A move inside the `try`: one that returns from a settling move has settled the job. -/
theorem tries_move {job : Job} {m : Move} (hlease : 0 < cfg.leaseSeconds)
    (hid : job.id = args.jobId) :
    (tries H args).Triple (fun _ => True) (move cfg job m) fun job' w =>
      job'.id = args.jobId ∧ (settles m.state = true → Resolved args w.store) := by
  have hrenew : (tries H args).Triple (fun _ => True) (renewLease cfg) fun _ _ => True :=
    triple_renewLease hlease Contract.stable_true stable_handled fun _ _ _ _ _ => trivial
  apply Contract.triple_bind hrenew
  intro _
  apply Contract.triple_bind (Contract.triple_get Contract.stable_true)
  intro own
  have hcall : OwnCall args (.transitionJob (m.update job own.lease) m.state.value (some ∅)) := hid
  refine triple_callStore hcall (stable_and stable_attached Contract.stable_true) ?_ stable_handled ?_
  · intro job' l w w' hinv hw hr
    exact ⟨hw.1, fun hs => others_resolved hr.1 (hw.2 hs)⟩
  · intro l w clk a w' hinv _ _ hexec _ _
    cases a with
    | error e => exact nofun
    | ok r =>
      obtain ⟨job', hr, hstored, hstate, hid'⟩ := transition_stored hinv.wellFormed hexec
      rw [Answered, hr]
      refine ⟨hid'.trans hid, fun hs => ?_⟩
      have hjob : w'.store.jobs.get? args.jobId = some job' := hid ▸ hstored
      exact resolved_of_stored hjob (by rw [hstate]; exact hs)

/-- A lease that is held admits the moves of its job. -/
theorem Attached.admits {own : Attempt} {job : Job} {m : Move} {clk : Clock}
    (h : Attached args own w) (hmine : Mine args job) (hruns : LeaseRuns args.jobId w.store clk) :
    w.store.leaseAdmits (m.update job own.lease) (clk 0) = true := by
  obtain ⟨lease, claim, hl, hid, howner, hclaim, hcid, hsame⟩ := h.lease
  have hlive := hruns claim hclaim 0
  simp only [MemoryJobStore.sameLease, Bool.and_eq_true, beq_iff_eq] at hsame
  have hclaim' : w.store.claims.get? (m.update job own.lease).jobId = some claim := by
    rw [← hclaim, ← hmine.1]
    rfl
  have hlease : (m.update job own.lease).lease = some lease := hl
  rw [MemoryJobStore.leaseAdmits, hlease, hclaim']
  simp only [Bool.and_eq_true, beq_iff_eq, decide_eq_true_eq]
  exact ⟨⟨⟨⟨hid.trans hmine.1.symm, howner.trans hmine.2.symm⟩, hsame.1.2.symm⟩, hsame.2.symm⟩, hlive⟩

theorem exceptional_event {state : JobState} (h : state ∈ JobState.exceptional) :
    ∃ v, validatedEventData state.value (some ∅) = .ok v := by
  simp only [JobState.exceptional, List.mem_cons, List.not_mem_nil, or_false] at h
  rcases h with rfl | rfl | rfl <;> exact ⟨∅, rfl⟩

/-- From the revision it read, a run moves a live job to an end. -/
theorem closing_succeeds {own : Attempt} {job : Job} {state : JobState} {clk : Clock}
    (hinv : Attached args own w) (hmine : Mine args job) (hlive : job.state.terminal = false)
    (hstate : state ∈ JobState.exceptional) (hruns : LeaseRuns args.jobId w.store clk)
    (hjob : w.store.jobs.get? args.jobId = some job) :
    ∃ r t, exec H w.store (.transitionJob (Move.update { state } job own.lease) state.value
      (some ∅)) clk = (.ok r, t) := by
  obtain ⟨v, hv⟩ := exceptional_event hstate
  have howned : w.store.ownedJob job.id job.ownerId = some job := by
    rw [MemoryJobStore.ownedJob_eq_some, hmine.1]
    exact ⟨hjob, rfl⟩
  exact transition_answers hinv.wellFormed hv howned rfl (hinv.admits hmine hruns)
    (transition_exceptional _ hlive hstate)

/-- The move with which a handler ends its job: it settles the job or is overtaken. -/
theorem ends_closing {job : Job} {state : JobState} (hlease : 0 < cfg.leaseSeconds)
    (hmine : Mine args job) (hlive : job.state.terminal = false)
    (hstate : state ∈ JobState.exceptional) :
    (ends H args).Triple (fun w => Knows job w.store) (move cfg job { state })
      fun _ w => Resolved args w.store := by
  have hstable : ∀ _ : WorkerFault, (ends H args).Stable (Ends args) := fun _ => stable_ends
  have hrenew : (ends H args).Triple (fun w => Knows job w.store) (renewLease cfg)
      fun _ w => Knows job w.store :=
    triple_renewLease hlease stable_knows hstable fun _ _ _ hcont hk => hk.later hcont
  apply Contract.triple_bind hrenew
  intro _
  apply Contract.triple_bind (Contract.triple_get stable_knows)
  intro own
  have hcall : OwnCall args
    (.transitionJob (Move.update { state } job own.lease) state.value (some ∅)) := hmine.1
  refine triple_callStore hcall (stable_and stable_attached stable_knows)
    (fun _ => stable_resolved) hstable ?_
  intro l w clk a w' hinv hw hruns hexec hjudge _
  obtain ⟨hown, current, hcurrent, hle, hsame⟩ := hw
  rw [hmine.1] at hcurrent
  cases a with
  | ok r =>
    obtain ⟨job', hr, hstored, hstate', -⟩ := transition_stored hinv.wellFormed hexec
    have hjob : w'.store.jobs.get? args.jobId = some job' := hmine.1 ▸ hstored
    have hsettles : ∀ s ∈ JobState.exceptional, settles s = true := by decide
    rw [Answered, hr]
    refine resolved_of_stored hjob ?_
    rw [hstate']
    exact hsettles state hstate
  | error e =>
    intro hfree
    -- Not overtaken, the move finds the job it was made from, and succeeds.
    rw [hfree] at hjudge
    have hrev : (current.revision : Int) = job.revision := by
      have hid : (Move.update { state } job own.lease).jobId = args.jobId := hmine.1
      rw [Watched.judge, hid, hcurrent] at hjudge
      have hnot := of_decide_eq_false hjudge.symm
      exact not_not.mp hnot
    obtain rfl := hsame (by omega)
    obtain ⟨r, t, hok⟩ := closing_succeeds (H := H) hown hmine hlive hstate hruns hcurrent
    rw [hok] at hexec
    cases hexec

/-! ## The body of the `try` -/

/-- Anything a service raises goes to the handler. -/
theorem ordinary_handled {sv : Service} {e : WorkerFault} (h : Ordinary sv (.error e)) (w : Watched) :
    Handled e w := by
  intro code he
  subst he
  cases sv with
  | clock => obtain ⟨t, ht⟩ := h; cases ht
  | monotonic => obtain ⟨t, ht⟩ := h; cases ht
  | recoveryContextExists => exact h.2 code rfl
  | _ => exact h code rfl

theorem tries_ask (sv : Service) :
    (tries H args).Triple (fun _ => True) (ask sv) fun a _ => Ordinary sv (.ok a) :=
  (triple_ask Contract.stable_true stable_handled fun _ w h _ => ordinary_handled h w).weaken
    (fun _ h => h) fun _ _ h => h.1

theorem tries_pure (a : α) : (tries H args).Triple (fun _ => True) (pure a) fun _ _ => True :=
  Contract.triple_pure Contract.stable_true fun _ _ => trivial

theorem tries_raise {e : WorkerFault} {post : α → Watched → Prop}
    (h : ∀ code, e ≠ .promotionRecoveryRequired code) :
    (tries H args).Triple (fun _ => True) (Act.raise e) post :=
  Contract.triple_raise (stable_handled e) fun _ _ => h

/-- What follows an action whose result does not matter. -/
theorem tries_seq {m : Worker β} {f : β → Worker α} {post : α → Watched → Prop}
    {mid : β → Watched → Prop} (h : (tries H args).Triple (fun _ => True) m mid)
    (hf : ∀ b, (tries H args).Triple (fun _ => True) (f b) post) :
    (tries H args).Triple (fun _ => True) (m >>= f) post :=
  Contract.triple_bind h fun b => (hf b).weaken (fun _ _ => trivial) fun _ _ h => h

/-- A program that needs nothing of the state. -/
theorem tries_anyway {m : Worker α} {post : α → Watched → Prop}
    (h : (tries H args).Triple (fun _ => True) m post) : (tries H args).Triple pre m post :=
  h.weaken (fun _ _ => trivial) fun _ _ h => h

/-- What follows a move of the own job. -/
theorem tries_then {m : Worker Job} {f : Job → Worker α} {post : α → Watched → Prop}
    {settled : Watched → Prop}
    (h : (tries H args).Triple (fun _ => True) m fun job w => job.id = args.jobId ∧ settled w)
    (hf : ∀ job, job.id = args.jobId → (tries H args).Triple (fun _ => True) (f job) post) :
    (tries H args).Triple (fun _ => True) (m >>= f) post := by
  apply Contract.triple_bind h
  intro job
  apply Contract.triple_given fun _ hjob => hjob.1
  intro hid
  exact tries_anyway (hf job hid)

theorem tries_orRaise {ε : Type} {wrap : ε → WorkerFault} {r : Except ε α}
    (h : ∀ e code, wrap e ≠ .promotionRecoveryRequired code) :
    (tries H args).Triple (fun _ => True) (orRaise wrap r) fun _ _ => True := by
  cases r with
  | ok a => exact tries_pure a
  | error e => exact tries_raise (h e)

/-- Appending an event leaves every job as it is. -/
theorem appendEvent_jobs {jobId : JobId} {ownerId : OwnerId} {kind : String}
    {data : Option JsonObj} {clk : Clock} {a : Except StoreFault Reply} (hw : s.WellFormed)
    (h : exec H s (.appendEvent jobId ownerId kind data) clk = (a, s')) : s'.jobs = s.jobs := by
  rcases ownCall_cases hw h with ⟨e, -, rfl⟩ | ⟨r, -, heff⟩
  · rfl
  · cases heff with
    | read hread => rfl
    | eventAppended => rfl

/-- An event is appended to a settled job. -/
theorem triple_appendEvent {jobId : JobId} {kind : String} {data : JsonObj}
    (hraises : ∀ e, (attemptContract H args raises).Stable (raises e))
    (h : ∀ e w, Handled e w → Resolved args w.store → raises e w) :
    (attemptContract H args raises).Triple (fun w => Resolved args w.store)
      (appendEvent jobId args.ownerId kind data) fun _ w => Resolved args w.store := by
  have hcall : OwnCall args (.appendEvent jobId args.ownerId kind (some data)) := trivial
  refine triple_callStore hcall stable_resolved (fun _ => stable_resolved) hraises ?_
  intro l w clk a w' hinv hw _ hexec _ _
  have hkept : Resolved args w'.store := by
    obtain ⟨job, hjob, hstate⟩ := hw
    exact ⟨job, by rw [appendEvent_jobs hinv.wellFormed hexec]; exact hjob, hstate⟩
  cases a with
  | error e => exact h _ _ nofun hkept
  | ok r =>
    rw [Answered]
    split
    · exact hkept
    · exact h _ _ nofun hkept

theorem tries_appendEvent {jobId : JobId} {kind : String} {data : JsonObj} :
    (tries H args).Triple (fun _ => True) (appendEvent jobId args.ownerId kind data)
      fun _ _ => True := by
  have hcall : OwnCall args (.appendEvent jobId args.ownerId kind (some data)) := trivial
  refine triple_callStore hcall Contract.stable_true (fun _ => Contract.stable_true)
    stable_handled ?_
  intro l w clk a w' _ _ _ _ _ _
  cases a with
  | error e => exact nofun
  | ok r =>
    rw [Answered]
    split
    · trivial
    · exact nofun

theorem tries_renewLease (hlease : 0 < cfg.leaseSeconds) :
    (tries H args).Triple (fun _ => True) (renewLease cfg) fun _ _ => True :=
  triple_renewLease hlease Contract.stable_true stable_handled fun _ _ _ _ _ => trivial

/-- A move that settles the job. -/
theorem tries_settling {job : Job} {m : Move} (hlease : 0 < cfg.leaseSeconds)
    (hid : job.id = args.jobId) (hm : settles m.state = true) :
    (tries H args).Triple (fun _ => True) (move cfg job m) fun _ w => Resolved args w.store :=
  (tries_move hlease hid).weaken (fun _ h => h) fun _ _ h => h.2 hm

theorem tries_moveFrom {job : Job} {state next : JobState} (hlease : 0 < cfg.leaseSeconds)
    (hid : job.id = args.jobId) :
    (tries H args).Triple (fun _ => True) (moveFrom cfg state next job)
      fun job' _ => job'.id = args.jobId := by
  apply Contract.triple_ite
  · intro _
    exact (tries_move hlease hid).weaken (fun _ h => h) fun _ _ h => h.1
  · intro _
    exact Contract.triple_pure stable_const fun _ _ => hid

theorem tries_getJob : (tries H args).Triple (fun _ => True) (getJob args.jobId args.ownerId)
    fun r _ => ∀ job, r = some job → job.id = args.jobId := by
  refine (triple_getJob (p := fun _ => True) Contract.stable_true stable_handled
    fun _ _ _ _ => trivial).weaken (fun _ h => h) ?_
  rintro r w ⟨job, rfl, hmine, -⟩ job' hjob'
  obtain rfl := Option.some.inj hjob'
  exact hmine.1

theorem tries_captureBaseline {job : Job}
    (htools : args.workspace = true → cfg.captureTools = true) :
    (tries H args).Triple (fun _ => True) (captureBaseline cfg args job) fun _ _ => True := by
  apply Contract.triple_ite
  · intro hworkspace
    apply Contract.triple_ite
    · intro hnone
      rw [htools hworkspace] at hnone
      cases hnone
    · intro _
      apply Contract.triple_bind (tries_ask .recoveryContextExists)
      intro (recovering : Bool)
      apply Contract.triple_ite
      · intro hrecovering
        refine Contract.triple_raise (stable_handled _) fun w hordinary => ?_
        have hnot : (Except.ok recovering : Except WorkerFault Bool) ≠ .ok true := hordinary.1
        exact absurd (congrArg Except.ok hrecovering) hnot
      · intro _
        refine Contract.Triple.weaken (?_ : (tries H args).Triple (fun _ => True) _ _) (fun _ _ => trivial)
          fun _ _ h => h
        apply tries_seq (tries_ask _)
        intro _
        apply Contract.triple_bind (Contract.triple_get Contract.stable_true)
        intro own
        have hput : (tries H args).Triple
            (fun w => Attached args
              { own with snapshotRoots := own.snapshotRoots ++ [snapshotJobRoot job.id] } w ∧ True)
            (Act.put { own with snapshotRoots := own.snapshotRoots ++ [snapshotJobRoot job.id] })
            fun _ _ => True := Contract.triple_put Contract.stable_true
        apply Contract.triple_bind
          (hput.weaken (fun w h => ⟨⟨h.1.wellFormed, h.1.job, h.1.lease⟩, trivial⟩) fun _ _ h => h)
        intro _
        exact (tries_ask _).weaken (fun _ h => h) fun _ _ _ => trivial
  · intro _
    exact tries_pure _

theorem tries_captureFinal {root : String} {baseline : WorkspaceSnapshot} :
    (tries H args).Triple (fun _ => True) (captureFinal args root baseline) fun _ _ => True := by
  apply Contract.triple_ite
  · intro _
    exact (tries_ask _).weaken (fun _ h => h) fun _ _ _ => trivial
  · intro _
    exact tries_pure _

theorem tries_fetchGalor {job : Job} :
    (tries H args).Triple (fun _ => True) (fetchGalor cfg args.ownerId job) fun _ _ => True := by
  apply Contract.triple_ite
  · intro _
    apply tries_seq (tries_ask _)
    intro answer
    apply Contract.triple_ite
    · intro _
      exact tries_seq tries_appendEvent fun _ => tries_pure _
    · intro _
      exact tries_pure _
  · intro _
    exact tries_pure _

theorem tries_verifyPatch {job : Job} {patch : Bytes} {baseline final : WorkspaceSnapshot} :
    (tries H args).Triple (fun _ => True) (verifyPatch P cfg args job patch baseline final)
      fun _ _ => True := by
  apply Contract.triple_ite
  · intro _
    exact tries_seq (tries_ask _) fun _ => tries_pure _
  · intro _
    exact tries_pure _

theorem tries_bindApproval {baseline : WorkspaceSnapshot} {needed : Bool} :
    (tries H args).Triple (fun _ => True) (bindApproval P cfg baseline needed)
      fun _ _ => True := by
  apply Contract.triple_ite
  · intro _
    exact tries_seq (tries_ask _) fun _ => tries_pure _
  · intro _
    exact tries_pure _

theorem tries_storeEvidence (hlease : 0 < cfg.leaseSeconds) {keyPrefix : String}
    {files : List Artifact} : ∀ {manifest : JsonObj},
    (tries H args).Triple (fun _ => True) (storeEvidence cfg keyPrefix files manifest)
      fun _ _ => True := by
  induction files with
  | nil => exact tries_pure _
  | cons file rest ih =>
    exact tries_seq (tries_renewLease hlease) fun _ => tries_seq (tries_ask _) fun _ => ih

theorem tries_settle (hlease : 0 < cfg.leaseSeconds) {job : Job} (hid : job.id = args.jobId)
    {result : AgentResult} {baseline : WorkspaceSnapshot} {bundle : EvidenceBundle}
    {manifest : JsonObj} {binding : Option JsonObj} {timedOut : Bool} :
    (tries H args).Triple (fun _ => True)
      (settle P cfg args.ownerId job result baseline bundle manifest binding timedOut)
      fun _ w => Resolved args w.store := by
  cases binding with
  | none =>
    refine tries_settling hlease hid ?_
    cases timedOut <;> rfl
  | some binding =>
    apply Contract.triple_bind (tries_settling hlease hid rfl)
    intro moved
    apply Contract.triple_bind (triple_appendEvent stable_handled fun _ _ h _ => h)
    intro _
    exact Contract.triple_pure stable_resolved fun _ h => h

theorem tries_collect (hlease : 0 < cfg.leaseSeconds) {job : Job} (hid : job.id = args.jobId)
    {root : String} {startedAt : Time} {baseline : WorkspaceSnapshot} {result : AgentResult} :
    (tries H args).Triple (fun _ => True) (collect P cfg args job root startedAt baseline result)
      fun _ w => Resolved args w.store := by
  apply tries_seq tries_captureFinal
  intro final
  apply tries_seq (tries_orRaise fun _ _ h => by cases h)
  intro patch
  apply tries_seq tries_verifyPatch
  intro receipt
  apply tries_seq (tries_ask _)
  intro commands
  apply tries_seq (tries_ask _)
  intro journal
  have hvalue (message : String) :
      ∀ code, WorkerFault.valueError message ≠ .promotionRecoveryRequired code := by
    intro code h
    cases h
  apply Contract.triple_ite
  · intro _
    exact tries_raise (hvalue _)
  · intro _
    apply Contract.triple_ite
    · intro _
      exact tries_raise (hvalue _)
    · intro _
      apply tries_seq tries_bindApproval
      intro binding
      apply tries_seq (tries_ask _)
      intro finishedAt
      apply tries_seq (tries_ask _)
      intro bundle
      apply tries_seq (tries_storeEvidence hlease)
      intro manifest
      exact tries_settle hlease hid

theorem tries_execute (hlease : 0 < cfg.leaseSeconds) {root : String} {startedAt deadline : Time}
    {baseline : WorkspaceSnapshot} {job : Job} (hid : job.id = args.jobId) :
    (tries H args).Triple (fun _ => True)
      (execute P cfg args root startedAt deadline baseline job)
      fun _ w => Resolved args w.store := by
  apply tries_seq tries_fetchGalor
  intro galorContext
  apply tries_seq (tries_ask _)
  intro result
  rw [hid]
  apply Contract.triple_bind tries_getJob
  intro latest
  cases latest with
  | none => exact Contract.triple_raise (stable_handled _) fun _ _ => nofun
  | some latest =>
    apply Contract.triple_given fun _ h => h latest rfl
    intro hlatest
    apply tries_anyway
    apply Contract.triple_ite
    · intro _
      exact tries_settling hlease hlatest rfl
    · intro _
      apply tries_then (tries_move hlease hlatest)
      intro testing htesting
      apply tries_then (tries_move hlease htesting)
      intro job hjob
      exact tries_collect hlease hjob

theorem tries_announce (hlease : 0 < cfg.leaseSeconds) {baseline : WorkspaceSnapshot}
    {k : Job → Worker Job}
    (hk : ∀ job, job.id = args.jobId →
      (tries H args).Triple (fun _ => True) (k job) fun _ w => Resolved args w.store)
    {states : List JobState} : ∀ {job : Job}, job.id = args.jobId →
      (tries H args).Triple (fun _ => True) (announce P cfg args.ownerId baseline states job k)
        fun _ w => Resolved args w.store := by
  induction states with
  | nil => exact fun hid => hk _ hid
  | cons state rest ih =>
    intro job hid
    apply tries_then (tries_move hlease hid)
    intro moved hmoved
    rw [hmoved]
    apply Contract.triple_bind tries_getJob
    intro latest
    cases latest with
    | none => exact tries_anyway (ih hmoved)
    | some latest =>
      apply Contract.triple_given fun _ h => h latest rfl
      intro hlatest
      apply tries_anyway
      apply Contract.triple_ite
      · intro _
        exact tries_settling hlease hlatest rfl
      · intro _
        exact ih hmoved

/-- An attempt that returns has settled its job. -/
theorem tries_attempt (hlease : 0 < cfg.leaseSeconds)
    (htools : args.workspace = true → cfg.captureTools = true) {job : Job}
    (hid : job.id = args.jobId) {startedAt deadline : Time} :
    (tries H args).Triple (fun _ => True) (attempt P cfg args job startedAt deadline)
      fun _ w => Resolved args w.store := by
  apply Contract.triple_bind (tries_moveFrom hlease hid)
  intro queued
  apply Contract.triple_given fun _ h => h
  intro hqueued
  apply tries_anyway
  apply Contract.triple_bind (tries_moveFrom hlease hqueued)
  intro ingesting
  apply Contract.triple_given fun _ h => h
  intro hingesting
  apply tries_anyway
  apply tries_seq (tries_captureBaseline htools)
  intro baseline
  apply Contract.triple_bind (Contract.triple_get Contract.stable_true)
  intro own
  apply tries_anyway
  exact tries_announce hlease (fun _ h => tries_execute hlease h) hingesting

/-! ## The handler and the end -/

theorem ends_stable (e : WorkerFault) : (ends H args).Stable ((ends H args).raises e) := stable_ends

/-- The handler settles the job, or its move is overtaken. -/
theorem ends_recoverLatest (hlease : 0 < cfg.leaseSeconds) {fault : WorkerFault} {latest : Job}
    (hmine : Mine args latest) :
    (ends H args).Triple
      (fun w => Knows latest w.store ∧ (latest.state.terminal = true → Resolved args w.store))
      (recoverLatest cfg args fault latest) fun _ w => Resolved args w.store := by
  have hclose {state : JobState} (hlive : latest.state.terminal = false)
      (hstate : state ∈ JobState.exceptional) :
      (ends H args).Triple
        (fun w => Knows latest w.store ∧ (latest.state.terminal = true → Resolved args w.store))
        (move cfg latest { state }) fun _ w => Resolved args w.store :=
    (ends_closing hlease hmine hlive hstate).weaken (fun _ h => h.1) fun _ _ h => h
  apply Contract.triple_ite
  · intro hterminal
    exact Contract.triple_raise (ends_stable fault) fun w h _ => h.2 hterminal
  · intro hlive
    have hlive : latest.state.terminal = false := by simpa using hlive
    apply Contract.triple_ite
    · intro _
      exact hclose hlive (by decide)
    · intro _
      have hfail : (ends H args).Triple
          (fun w => Knows latest w.store ∧ (latest.state.terminal = true → Resolved args w.store))
          (do
            let failed ← move cfg latest { state := .failed }
            let _ ← appendEvent args.jobId args.ownerId "engineering_failed"
              (JsonObj.ofFields [("code", .str "engineering_failed")])
            pure failed) fun _ w => Resolved args w.store := by
        apply Contract.triple_bind (hclose hlive (by decide))
        intro failed
        apply Contract.triple_bind (triple_appendEvent ends_stable fun _ _ _ h _ => h)
        intro _
        exact Contract.triple_pure stable_resolved fun _ h => h
      cases fault with
      | agentDeadline => exact hclose hlive (by decide)
      | _ => exact hfail

theorem ends_recover (hlease : 0 < cfg.leaseSeconds) (fault : WorkerFault) :
    (ends H args).Triple (Handled fault) (recover cfg args fault)
      fun _ w => Resolved args w.store := by
  have hread : ∀ k : Option Job → Worker Job, k none = Act.raise fault →
      (∀ latest, k (some latest) = recoverLatest cfg args fault latest) →
      (ends H args).Triple (Handled fault) (getJob args.jobId args.ownerId >>= k)
        fun _ w => Resolved args w.store := by
    intro k hnone hsome
    apply Contract.triple_bind
      (triple_getJob (p := fun _ => True) (stable_handled fault) ends_stable fun _ _ _ _ => trivial)
    intro latest
    cases latest with
    | none =>
      apply Contract.triple_given (p := False)
      · rintro w ⟨job, hnone, -⟩
        cases hnone
      · exact fun h => h.elim
    | some latest =>
      apply Contract.triple_given (p := Mine args latest)
      · rintro w ⟨job, hjob, hmine, -⟩
        obtain rfl := Option.some.inj hjob
        exact hmine
      · intro hmine
        rw [hsome]
        refine (ends_recoverLatest hlease hmine).weaken ?_ fun _ _ h => h
        rintro w ⟨job, hjob, -, -, hk, hterminal, -⟩
        obtain rfl := Option.some.inj hjob
        exact ⟨hk, hterminal⟩
  cases fault with
  | promotionRecoveryRequired code =>
    exact Contract.triple_raise (ends_stable _) fun w h => absurd rfl (h code)
  | _ => exact hread _ rfl fun _ => rfl

/-- What a service does not touch holds before and after it. -/
theorem ends_ask (sv : Service) :
    (ends H args).Triple (Ends args) (ask sv) fun _ => Ends args :=
  (triple_ask stable_ends ends_stable fun _ _ _ h => h).weaken (fun _ h => h) fun _ _ h => h.2

theorem ends_removeSnapshotTrees {paths : List String} :
    (ends H args).Triple (Ends args) (removeSnapshotTrees paths) fun _ => Ends args := by
  induction paths with
  | nil => exact Contract.triple_pure stable_ends fun _ h => h
  | cons path rest ih => exact Contract.triple_bind (ends_ask _) fun _ => ih

theorem ends_cleanup {preserve : Bool} :
    (ends H args).Triple (Ends args) (cleanup cfg preserve) fun _ => Ends args := by
  have hcontext : (ends H args).Triple (Ends args) (recoveryContext cfg) fun _ => Ends args := by
    apply Contract.triple_ite
    · intro _
      exact ends_ask _
    · intro _
      exact Contract.triple_pure stable_ends fun _ h => h
  apply Contract.triple_bind hcontext
  intro recovering
  apply Contract.triple_bind (Contract.triple_get stable_ends)
  intro own
  refine Contract.Triple.weaken (?_ : (ends H args).Triple (Ends args) _ _) (fun _ h => h.2) fun _ _ h => h
  apply Contract.triple_ite
  · intro _
    exact Contract.triple_pure stable_ends fun _ h => h
  · intro _
    exact ends_removeSnapshotTrees

/-- The `try` statement ends with the job settled or its last move overtaken. -/
theorem ends_guarded (hlease : 0 < cfg.leaseSeconds)
    (htools : args.workspace = true → cfg.captureTools = true) {job : Job}
    (hid : job.id = args.jobId) {startedAt deadline : Time} :
    (ends H args).Triple (fun _ => True) (guarded P cfg args job startedAt deadline)
      fun _ => Ends args := by
  have hattempt : (ends H args).Triple (fun _ => True)
      ((attempt P cfg args job startedAt deadline).handle (recover cfg args))
      fun _ w => Resolved args w.store :=
    Contract.triple_handle (tries_attempt hlease htools hid) (ends_recover hlease)
  have houtcome : (ends H args).Triple (fun _ => True)
      ((((attempt P cfg args job startedAt deadline).handle (recover cfg args)).bind fun job =>
        pure (Except.ok job)).handle fun e => pure (Except.error e)) fun _ => Ends args := by
    refine Contract.triple_handle (?_ : ((ends H args).raising fun _ => Ends args).Triple _ _ _)
      fun e => Contract.triple_pure stable_ends fun _ h => h
    apply Contract.triple_bind hattempt
    intro job
    exact Contract.triple_pure stable_ends fun _ h _ => h
  apply Contract.triple_bind houtcome
  intro outcome
  cases outcome with
  | ok job =>
    apply Contract.triple_bind ends_cleanup
    intro _
    exact Contract.triple_pure stable_ends fun _ h => h
  | error e =>
    apply Contract.triple_bind ends_cleanup
    intro _
    exact Contract.triple_raise (ends_stable e) fun _ h => h

/-! ## The whole run -/

/-- The job the run was given, or that job flagged for cancellation since. -/
def Begun (args : RunArgs) (job : Job) (w : Watched) : Prop :=
  (∃ now, w.store.jobs.get? args.jobId = some now ∧ (now = job ∨ now.cancelRequested = true)) ∧
    (job.state = .awaitingApproval → Resolved args w.store)

theorem stable_begun {job : Job} : (attemptContract H args raises).Stable (Begun args job) := by
  intro l w w' _ hbegun hr
  refine ⟨?_, fun h => others_resolved hr.1 (hbegun.2 h)⟩
  have hothers := hr.1
  obtain ⟨hfirst, -⟩ := hbegun
  generalize w'.store = t at hothers
  clear hr
  induction hothers with
  | refl => exact hfirst
  | tail _ hstep ih =>
    obtain ⟨now, hnow, hcase⟩ := ih
    obtain ⟨c, -, -, hwrite⟩ := hstep
    rcases hwrite now hnow with hsame | ⟨-, t, hcancelled⟩
    · exact ⟨now, hsame, hcase⟩
    · exact ⟨_, hcancelled, Or.inr rfl⟩

/-- A run on a job that gets past the check ends with the job settled or its last
move overtaken. -/
theorem ends_runJob (hlease : 0 < cfg.leaseSeconds)
    (htools : args.workspace = true → cfg.captureTools = true) {job : Job}
    (hpass : job.state = .awaitingApproval ∨ ¬Unidentified cfg args job) :
    (ends H args).Triple (Begun args job) (runJob P cfg args) fun _ => Ends args := by
  have hfact : ∀ w now, Begun args job w → w.store.jobs.get? args.jobId = some now →
      now = job ∨ now.cancelRequested = true := by
    rintro w now ⟨⟨stored, hstored, hcase⟩, -⟩ hnow
    obtain rfl := Option.some.inj (hstored.symm.trans hnow)
    exact hcase
  apply Contract.triple_bind (triple_getJob stable_begun ends_stable hfact)
  intro found
  cases found with
  | none =>
    apply Contract.triple_given (p := False)
    · rintro w ⟨now, hnone, -⟩
      cases hnone
    · exact fun h => h.elim
  | some now =>
    apply Contract.triple_given (p := Mine args now ∧ (now = job ∨ now.cancelRequested = true))
    · rintro w ⟨stored, hstored, hmine, hcase, -⟩
      obtain rfl := Option.some.inj hstored
      exact ⟨hmine, hcase⟩
    rintro ⟨hmine, hcase⟩
    refine Contract.Triple.weaken (?_ : (ends H args).Triple (fun w => Knows now w.store ∧
      (now.state.terminal = true → Resolved args w.store) ∧ Begun args job w) _ _) ?_ fun _ _ h => h
    · apply Contract.triple_ite
      · intro hterminal
        exact Contract.triple_pure stable_ends fun w h _ => h.2.1 hterminal
      · intro hlive
        have hlive : now.state.terminal = false := by simpa using hlive
        apply Contract.triple_ite
        · intro _
          exact (ends_closing hlease hmine hlive (by decide)).weaken (fun _ h => h.1)
            fun _ _ h _ => h
        · intro hflag
          obtain rfl : now = job := hcase.resolve_right hflag
          have hflag : now.cancelRequested = false := by simpa using hflag
          apply Contract.triple_ite
          · rintro ⟨hverifier, hmode, hmissing⟩
            have hawaiting := hpass.resolve_right fun h => h ⟨hflag, hverifier, hmode, hmissing⟩
            exact Contract.triple_raise (ends_stable _) fun w h _ => h.2.2.2 hawaiting
          · intro _
            have hclock : (ends H args).Triple (fun _ => True) (ask .clock) fun _ _ => True := by
              refine (triple_ask Contract.stable_true ends_stable ?_).weaken (fun _ h => h)
                fun _ _ _ => trivial
              rintro e w ⟨t, ht⟩
              cases ht
            have hmonotonic : (ends H args).Triple (fun _ => True) (ask .monotonic)
                fun _ _ => True := by
              refine (triple_ask Contract.stable_true ends_stable ?_).weaken (fun _ h => h)
                fun _ _ _ => trivial
              rintro e w ⟨t, ht⟩
              cases ht
            apply Contract.triple_bind (hclock.weaken (fun _ _ => trivial) fun _ _ h => h)
            intro startedAt
            apply Contract.triple_bind hmonotonic
            intro started
            exact ends_guarded hlease htools hmine.1
    · rintro w ⟨stored, hstored, -, -, hk, hterminal, hbegun⟩
      obtain rfl := Option.some.inj hstored
      exact ⟨hk, hterminal, hbegun⟩

end

/-- Every run of an attempt whose lease is current, beside others that may cancel the
job, ends with the job terminal or awaiting approval as long as its last move is not
overtaken, exactly when the job gets past the check before the `try`. -/
theorem attempt_settles_iff (H : Hashes) (P : Platform) {cfg : EngineeringOrchestrator}
    {args : RunArgs} {s : MemoryJobStore} {lease : JobLease} {job : Job}
    (hattached : Attached args { lease := some lease } { store := s })
    (hjob : s.ownedJob args.jobId args.ownerId = some job) (hlive : job.state.terminal = false)
    (hlease : 0 < cfg.leaseSeconds) (htools : args.workspace = true → cfg.captureTools = true) :
    Prog.Safe (attemptProtocol H args)
        (fun _ w => w.overtaken = false → Resolved args w.store)
        (runJob P cfg args { lease := some lease }) { store := s } ↔
      job.state = .awaitingApproval ∨ ¬Unidentified cfg args job := by
  obtain ⟨hget, howner⟩ := MemoryJobStore.ownedJob_eq_some.mp hjob
  constructor
  · intro hsafe
    by_contra hnot
    obtain ⟨hawaiting, hrefused⟩ := not_or.mp hnot
    obtain ⟨hflag, hverifier, hmode, hmissing⟩ := not_not.mp hrefused
    obtain ⟨held, claim, hl, -, -, hclaim, -, -⟩ := hattached.lease
    -- Nobody comes by: the job is read as it is, and the check raises.
    have hread := (hsafe _ ((attemptProtocol H args).refl _)).2 (.ok (.jobOption (some job)))
      { store := s } ⟨⟨fun _ => claim.expiresAt - 1, by
        intro c hc k
        obtain rfl := Option.some.inj (hclaim.symm.trans hc)
        exact sub_one_lt _, by rw [← hjob]; rfl⟩, rfl⟩
    have hgate : cfg.runnerVerifier = true ∧ job.mode ≠ .chat ∧ (job.gitSource = none ∨
        args.workspace = false ∨ args.sourceCommit = none ∨ args.sourceTree = none) :=
      ⟨hverifier, hmode, hmissing⟩
    change Prog.Safe _ _ ((if job.state.terminal then (pure job : Worker Job)
      else if job.cancelRequested then _ else if _ then Act.raise _ else _) _) _ at hread
    rw [if_neg (by rw [hlive]; exact nofun), if_neg (by rw [hflag]; exact nofun),
      if_pos hgate] at hread
    obtain ⟨now, hnow, hstate⟩ := hread _ ((attemptProtocol H args).refl _) rfl
    obtain rfl := Option.some.inj (hget.symm.trans hnow)
    rcases hstate with hterminal | hwaiting
    · rw [hlive] at hterminal
      cases hterminal
    · exact hawaiting hwaiting
  · intro hpass
    have hbegun : Begun args job { store := s } :=
      ⟨⟨job, hget, Or.inl rfl⟩, fun h => ⟨job, hget, Or.inr h⟩⟩
    have hends := ends_runJob (H := H) (P := P) hlease htools hpass _ _ hattached hbegun
    refine Prog.Safe.weaken ?_ hends
    rintro ⟨r, l⟩ w h
    cases r with
    | ok job => exact h.2
    | error e => exact h.2

/-! ## A sample attempt -/

/-- The sample job is created, queued, taken into intake and claimed. -/
def intakeCalls : List Call :=
  [⟨sampleCreate, fun _ => 0⟩,
    ⟨.transitionJob (sampleUpdate 0 .queued none) "queued" (some ∅), fun _ => 0⟩,
    ⟨.transitionJob (sampleUpdate 1 .ingesting none) "ingesting" (some ∅), fun _ => 0⟩,
    ⟨.claimJob "job" "owner" "worker" 60 none, fun _ => 0⟩]

def intakeStore : MemoryJobStore :=
  intakeCalls.foldl (fun s c => (exec plainHashes s c.op c.clk).2) {}

theorem intakeStore_reached : Run (StoreStep plainHashes) {} intakeCalls intakeStore :=
  .cons ⟨rfl, rfl⟩ (.cons ⟨trivial, rfl⟩ (.cons ⟨trivial, rfl⟩ (.cons ⟨trivial, rfl⟩ (.nil _))))

def intakeLease : JobLease :=
  { jobId := "job", ownerId := "owner", workerId := "worker", generation := 1, expiresAt := 60 }

def intakePlatform : Platform := ⟨sampleSha256, fun _ => ""⟩

/-- The arguments for a job without a Git source. -/
def plainArgs : RunArgs := { jobId := "job", ownerId := "owner" }

theorem intake_attached : Attached plainArgs { lease := some intakeLease } { store := intakeStore } where
  wellFormed := run_wellFormed intakeStore_reached
  job := ⟨_, rfl⟩
  lease := ⟨intakeLease, intakeLease, rfl, rfl, rfl, by decide +kernel, rfl, by decide⟩

theorem attempt_settles_intake :
    Prog.Safe (attemptProtocol plainHashes plainArgs)
      (fun _ w => w.overtaken = false → Resolved plainArgs w.store)
      (runJob intakePlatform {} plainArgs { lease := some intakeLease })
      { store := intakeStore } :=
  (attempt_settles_iff plainHashes intakePlatform intake_attached rfl (by decide +kernel)
    (by decide) nofun).mpr (Or.inr fun h => by cases h.2.1)

/-- With a runner verifier, the same job raises before the `try`: it stays in intake,
and once its claim has run out reconciliation queues it again. -/
def strictRun := solo plainHashes (fun _ => 0) (editOracle (sampleSnapshot none) (sampleSnapshot none))
  (runJob intakePlatform { runnerVerifier := true } plainArgs { lease := some intakeLease })
  intakeStore

theorem strictRun_unsettled :
    ¬Resolved plainArgs strictRun.2.2 ∧
      ((exec plainHashes strictRun.2.2 (.reconcileActiveJobs (some 100) 100) fun _ => 100).2.jobs.get?
        "job").map Job.state = some .queued := by
  have hstate : (strictRun.2.2.jobs.get? plainArgs.jobId).map Job.state = some .ingesting := by
    decide +kernel
  constructor
  · rintro ⟨job, hjob, hsettled⟩
    rw [hjob] at hstate
    have hingesting : job.state = .ingesting := Option.some.inj hstate
    rw [hingesting] at hsettled
    revert hsettled
    decide
  · decide +kernel

end LilTweak.Orchestrator
