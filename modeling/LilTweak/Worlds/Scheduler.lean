import LilTweak.Lib.Run
import LilTweak.Worlds.Constraints

/-!
# The Test World scheduler

`TestWorldScheduler` as a transition system. Its flag `_active` is read and written
under one lock, so the locked part of a poll is one step; submitting the attempt,
running it, releasing its lease and clearing the flag are steps of their own, which
other threads may interleave with theirs. What a call of the store, the guard, the
executor or the runner comes to is part of the step's label. Heartbeats only renew
the lease and are no steps of the scheduler's state.
-/

namespace LilTweak.Worlds

open LilTweak.Lib LilTweak.Core LilTweak.Store

/-- What a call the scheduler makes can raise. -/
inductive Raised
  | store (fault : TestWorldFault)
  | runtimeExecutionBusy
  | exception (message : String)
  deriving DecidableEq

/-- `_execute`: what ends up in the future. No guard is configured where it is `none`. -/
def execute (guard : Option (Except Raised Unit)) (ran : Except Raised TestWorldAttempt) :
    Except Raised TestWorldAttempt :=
  match guard with
  | some (.error e) => .error e
  | some (.ok _) | none => ran

/-- How far the scheduler is with an attempt it claimed. -/
inductive Phase
  /-- `submit` has not returned yet. -/
  | submitting
  /-- `submit` raised; the handler is to release the lease. -/
  | refused
  /-- The future is pending or its call is running. -/
  | running
  /-- The future is done; the callback is to release the lease. -/
  | finished (result : Except Raised TestWorldAttempt)
  /-- The lease was released; the flag is to be cleared. -/
  | released
  /-- The flag was cleared. -/
  | cleared
  /-- `release_attempt` raised, and the line that clears the flag was never reached. -/
  | abandoned

/-- The scheduler is still at work on the attempt. -/
def Phase.inFlight : Phase → Bool
  | .submitting | .refused | .running | .finished _ | .released => true
  | .cleared | .abandoned => false

/-- The flag was set for the attempt and not cleared since. -/
def Phase.holdsFlag : Phase → Bool
  | .cleared => false
  | _ => true

/-- An attempt the scheduler claimed. -/
structure Flight where
  lease : TestWorldLease
  phase : Phase

structure TestWorldScheduler where
  active : Bool := false
  stopped : Bool := false
  flights : List Flight := []

namespace TestWorldScheduler

variable (s : TestWorldScheduler)

/-- `has_capacity`. -/
def hasCapacity : Bool := !s.active && !s.stopped

/-- `poll_once` up to the release of the lock, with what the three store calls come to. -/
def pollOnce (reconciled : Except Raised Unit) (listed : Except Raised (List TestWorldAttempt))
    (claimed : Except Raised (Option TestWorldLease)) : Except Raised Nat × TestWorldScheduler :=
  match reconciled with
  | .error e => (.error e, s)
  | .ok _ =>
    if s.active ∨ s.stopped then (.ok 0, s)
    else match listed with
    | .error e => (.error e, s)
    | .ok [] => (.ok 0, s)
    | .ok (_ :: _) =>
      match claimed with
      | .error e => (.error e, s)
      | .ok none => (.ok 0, s)
      | .ok (some lease) =>
        (.ok 1, { s with active := true, flights := s.flights ++ [{ lease, phase := .submitting }] })

/-- A thread takes its next step with the `k`-th attempt claimed. -/
def advance (k : Nat) (next : Phase → Option Phase) : Option TestWorldScheduler := do
  let flight ← s.flights[k]?
  let phase ← next flight.phase
  some { s with flights := s.flights.set k { flight with phase } }

/-- One step of a thread, with what the call it makes comes to. -/
inductive Event
  | poll (reconciled : Except Raised Unit) (listed : Except Raised (List TestWorldAttempt))
    (claimed : Except Raised (Option TestWorldLease))
  | submit (k : Nat) (submitted : Except Raised Unit)
  | finish (k : Nat) (guard : Option (Except Raised Unit)) (ran : Except Raised TestWorldAttempt)
  | release (k : Nat) (released : Except Raised Unit)
  | releaseActive (k : Nat)
  | shutdown

/-- After `submit`. -/
def submitted (r : Except Raised Unit) : Phase → Option Phase
  | .submitting => some (match r with | .ok _ => .running | .error _ => .refused)
  | _ => none

/-- After the call in the executor. -/
def finished (result : Except Raised TestWorldAttempt) : Phase → Option Phase
  | .running => some (.finished result)
  | _ => none

/-- After `release_attempt`, in the handler of a failed `submit` or in `_finished`. A
callback that raises is logged by the future and goes no further. -/
def released (r : Except Raised Unit) : Phase → Option Phase
  | .refused | .finished _ => some (match r with | .ok _ => .released | .error _ => .abandoned)
  | _ => none

/-- After `_release_active`. -/
def clearedActive : Phase → Option Phase
  | .released => some .cleared
  | _ => none

/-- The scheduler after a step, `none` where no thread can take it. -/
def step : Event → Option TestWorldScheduler
  | .poll reconciled listed claimed => some (s.pollOnce reconciled listed claimed).2
  | .submit k r => s.advance k (submitted r)
  | .finish k guard ran => s.advance k (finished (execute guard ran))
  | .release k r => s.advance k (released r)
  | .releaseActive k => (s.advance k clearedActive).map fun s => { s with active := false }
  | .shutdown => some { s with stopped := true }

/-- The attempts in flight. -/
def inFlight : List Flight := s.flights.filter fun f => f.phase.inFlight

/-- A run of the scheduler. -/
def Runs (s : TestWorldScheduler) (l : List Event) (t : TestWorldScheduler) : Prop :=
  Run (fun s e t => s.step e = some t) s l t

/-- A `release_attempt` the scheduler called in the run raised. -/
def ReleaseRaises (l : List Event) : Prop := ∃ k fault, Event.release k (.error fault) ∈ l

/-! ## One step -/

variable {s} {t : TestWorldScheduler}

/-- The flag is set as long as it is held for some attempt, and never for two. -/
def FlagHeld (s : TestWorldScheduler) : Prop :=
  s.flights.countP (fun f => f.phase.holdsFlag) = if s.active then 1 else 0

/-- Some attempt was abandoned. -/
def Abandons (s : TestWorldScheduler) : Prop := ∃ f ∈ s.flights, f.phase = .abandoned

theorem advance_cases {k : Nat} {next : Phase → Option Phase} (h : s.advance k next = some t) :
    ∃ flight phase, s.flights[k]? = some flight ∧ next flight.phase = some phase ∧
      t = { s with flights := s.flights.set k { flight with phase } } := by
  simp only [advance, Option.bind_eq_bind, Option.bind_eq_some_iff, Option.some.injEq] at h
  obtain ⟨flight, hflight, phase, hphase, rfl⟩ := h
  exact ⟨flight, phase, hflight, hphase, rfl⟩

/-- A poll changes nothing, or claims an attempt while the flag is down. -/
theorem pollOnce_cases (reconciled : Except Raised Unit) (listed : Except Raised (List TestWorldAttempt))
    (claimed : Except Raised (Option TestWorldLease)) :
    (s.pollOnce reconciled listed claimed).2 = s ∨ s.active = false ∧ ∃ lease,
      (s.pollOnce reconciled listed claimed).2 =
        { s with active := true, flights := s.flights ++ [{ lease, phase := .submitting }] } := by
  unfold pollOnce
  split
  · exact .inl rfl
  · split
    · exact .inl rfl
    · next hidle =>
      split
      · exact .inl rfl
      · exact .inl rfl
      · split
        · exact .inl rfl
        · exact .inl rfl
        · next lease => exact .inr ⟨by simpa using (not_or.mp hidle).1, lease, rfl⟩

/-- Replacing a phase by one that holds the flag as much. -/
theorem FlagHeld.advance (h : FlagHeld s) {k : Nat} {next : Phase → Option Phase}
    (same : ∀ p q, next p = some q → p.holdsFlag = q.holdsFlag) (hs : s.advance k next = some t) :
    FlagHeld t := by
  obtain ⟨flight, phase, hflight, hphase, rfl⟩ := advance_cases hs
  obtain ⟨hk, hget⟩ := List.getElem?_eq_some_iff.mp hflight
  have hcount : 0 < s.flights.countP (fun f => f.phase.holdsFlag) ∨ flight.phase.holdsFlag = false := by
    by_cases hheld : flight.phase.holdsFlag = true
    · exact .inl (List.countP_pos_iff.mpr ⟨flight, List.mem_of_getElem? hflight, hheld⟩)
    · exact .inr (by simpa using hheld)
  have hset : (s.flights.set k { flight with phase }).countP (fun f => f.phase.holdsFlag) =
      s.flights.countP fun f => f.phase.holdsFlag := by
    rw [List.countP_set hk, hget, ← same _ _ hphase]
    rcases hcount with hpos | hnot
    · split <;> omega
    · simp [hnot]
  exact hset.trans h

theorem FlagHeld.step (h : FlagHeld s) {e : Event} (hs : s.step e = some t) : FlagHeld t := by
  cases e with
  | poll reconciled listed claimed =>
    obtain rfl := Option.some.inj hs
    rcases pollOnce_cases (s := s) reconciled listed claimed with hsame | ⟨hidle, lease, hclaim⟩
    · rwa [hsame]
    · rw [hclaim]
      have hzero : s.flights.countP (fun f => f.phase.holdsFlag) = 0 := by rw [h, hidle]; rfl
      have happend : (s.flights ++ [({ lease, phase := .submitting } : Flight)]).countP
          (fun f => f.phase.holdsFlag) = 0 + 1 := by
        rw [List.countP_append, hzero]
        rfl
      exact happend
  | submit k r =>
    refine h.advance (fun p q hpq => ?_) hs
    cases p <;> cases r <;> cases hpq <;> rfl
  | finish k guard ran =>
    refine h.advance (fun p q hpq => ?_) hs
    cases p <;> cases hpq
    rfl
  | release k r =>
    refine h.advance (fun p q hpq => ?_) hs
    cases p <;> cases r <;> cases hpq <;> rfl
  | releaseActive k =>
    obtain ⟨u, hu, rfl⟩ := Option.map_eq_some_iff.mp hs
    obtain ⟨flight, phase, hflight, hphase, rfl⟩ := advance_cases hu
    obtain ⟨hk, hget⟩ := List.getElem?_eq_some_iff.mp hflight
    -- the attempt was the only one to hold the flag
    have hheld : flight.phase.holdsFlag = true ∧ phase.holdsFlag = false := by
      revert hphase
      cases flight.phase <;> intro hphase <;> cases hphase
      exact ⟨rfl, rfl⟩
    have hone : s.flights.countP (fun f => f.phase.holdsFlag) ≤ 1 := by
      rw [h]
      split <;> omega
    have hset : (s.flights.set k { flight with phase }).countP (fun f => f.phase.holdsFlag) = 0 := by
      rw [List.countP_set hk, hget, hheld.1, hheld.2]
      simp only [if_true, Bool.false_eq_true, if_false]
      omega
    exact hset
  | shutdown =>
    obtain rfl := Option.some.inj hs
    exact h

/-- An abandoned attempt stays abandoned, and only a `release_attempt` that raises abandons one. -/
theorem abandons_step {e : Event} (hs : s.step e = some t) :
    Abandons t ↔ Abandons s ∨ ∃ k fault, e = .release k (.error fault) := by
  have keep : ∀ {k : Nat} {next : Phase → Option Phase} {u : TestWorldScheduler},
      (∀ p q, next p = some q → p ≠ .abandoned ∧ q ≠ .abandoned) → s.advance k next = some u →
      (Abandons u ↔ Abandons s) := by
    intro k next u hnext hu
    obtain ⟨flight, phase, hflight, hphase, rfl⟩ := advance_cases hu
    obtain ⟨hk, hget⟩ := List.getElem?_eq_some_iff.mp hflight
    obtain ⟨hold, hnew⟩ := hnext _ _ hphase
    constructor
    · intro ⟨f, hf, hp⟩
      rcases List.mem_or_eq_of_mem_set hf with hmem | rfl
      · exact ⟨f, hmem, hp⟩
      · exact absurd hp hnew
    · intro ⟨f, hf, hp⟩
      obtain ⟨j, hj, rfl⟩ := List.getElem_of_mem hf
      have hne : k ≠ j := by
        rintro rfl
        exact hold (hget ▸ hp)
      have hsame : (s.flights.set k { flight with phase })[j]? = some s.flights[j] := by
        rw [List.getElem?_set_ne hne, List.getElem?_eq_getElem hj]
      exact ⟨s.flights[j], List.mem_of_getElem? hsame, hp⟩
  cases e with
  | poll reconciled listed claimed =>
    obtain rfl := Option.some.inj hs
    rcases pollOnce_cases (s := s) reconciled listed claimed with hsame | ⟨-, lease, hclaim⟩
    · simp [hsame]
    · simp [hclaim, Abandons]
  | submit k r =>
    have := keep (fun p q hpq => by cases p <;> cases r <;> cases hpq <;> simp) hs
    simpa using this
  | finish k guard ran =>
    have := keep (fun p q hpq => by cases p <;> cases hpq; simp) hs
    simpa using this
  | release k r =>
    cases r with
    | ok u =>
      have := keep (fun p q hpq => by cases p <;> cases hpq <;> simp) hs
      simpa using this
    | error fault =>
      obtain ⟨flight, phase, hflight, hphase, rfl⟩ := advance_cases hs
      obtain ⟨hk, -⟩ := List.getElem?_eq_some_iff.mp hflight
      have hphase : phase = .abandoned := by
        revert hphase
        cases flight.phase <;> intro hphase <;> cases hphase <;> rfl
      have : Abandons { s with flights := s.flights.set k { flight with phase } } :=
        ⟨_, List.mem_set hk _, hphase⟩
      simp [this]
  | releaseActive k =>
    obtain ⟨u, hu, rfl⟩ := Option.map_eq_some_iff.mp hs
    have := keep (fun p q hpq => by cases p <;> cases hpq; simp) hu
    simpa [Abandons] using this
  | shutdown =>
    obtain rfl := Option.some.inj hs
    simp [Abandons]

/-! ## Runs -/

theorem flagHeld_run {l : List Event} (h : Runs s l t) (hs : FlagHeld s) : FlagHeld t :=
  Run.preserves h (fun _ _ _ _ hu hstep => hu.step hstep) hs

/-- An attempt is abandoned in a run exactly when a `release_attempt` raises in it. -/
theorem abandons_run {l : List Event} (h : Runs s l t) :
    Abandons t ↔ Abandons s ∨ ReleaseRaises l := by
  induction h with
  | nil s => simp [ReleaseRaises]
  | @cons s u t e l hstep hrun ih =>
    rw [ih, abandons_step hstep, or_assoc]
    simp only [ReleaseRaises, List.mem_cons, exists_or, eq_comm (a := e)]

/-- What holds the flag is in flight or abandoned. -/
theorem countP_holdsFlag (l : List Flight) : l.countP (fun f => f.phase.holdsFlag) =
    l.countP (fun f => f.phase.inFlight) +
      l.countP (fun f => f.phase.holdsFlag && !f.phase.inFlight) := by
  induction l with
  | nil => rfl
  | cons f l ih =>
    simp only [List.countP_cons, ih]
    cases f.phase <;> simp [Phase.holdsFlag, Phase.inFlight] <;> omega

/-- What a call on the tables comes to for the scheduler. -/
def storeCall {α : Type} (x : Except TestWorldFault (α × PostgresTestWorldStore)) : Except Raised α :=
  (x.map Prod.fst).mapError .store

def sampleAttempt : TestWorldAttempt :=
  { id := claimedLease.attemptId, worldId := claimedLease.worldId, ownerId := claimedLease.ownerId
    number := 1, status := .queued, worldFingerprint := zeroDigests.worldFingerprint sampleDefinition
    judgeVersion := zeroDigests.judgeVersion [sampleCheck] }

/-- An attempt is claimed and handed to the executor, where the execution guard finds the
runtime busy; what releasing the lease comes to is left open. -/
def busyRun (released : Except Raised Unit) : List Event :=
  [.poll (.ok ()) (.ok [sampleAttempt]) (.ok (some claimedLease)), .submit 0 (.ok ()),
   .finish 0 (some (.error .runtimeExecutionBusy)) (.ok sampleAttempt), .release 0 released]

/-- Where the tables lease the attempt, the busy run ends with the flag set. -/
theorem busyRun_abandons {cols : Columns} {T : PostgresTestWorldStore} (hT : Consistent cols T)
    (hleases : T.Leases claimedLease) : Runs {} (busyRun (storeCall (T.releaseAttempt cols claimedLease)))
      { active := true, flights := [{ lease := claimedLease, phase := .abandoned }] } := by
  rw [(releaseAttempt_cases hT claimedLease).1 hleases]
  exact .cons rfl (.cons rfl (.cons rfl (.cons rfl (.nil _))))

end TestWorldScheduler

end LilTweak.Worlds
