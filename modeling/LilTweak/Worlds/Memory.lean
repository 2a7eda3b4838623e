import LilTweak.Worlds.Contracts

/-!
# The in-memory Test World store

`MemoryTestWorldStore` under its lock: every operation is one step on the dicts.
An operation that raises has written nothing, so it returns no store; `t` is the
time passed as `now`, or the reading of the clock.
-/

namespace LilTweak.Worlds

open LilTweak.Lib LilTweak.Core LilTweak.Store

structure MemoryTestWorldStore where
  worlds : Dict String TestWorld := ∅
  attempts : Dict String TestWorldAttempt := ∅
  attemptIds : Dict String (List String) := ∅
  worldIdempotency : Dict (String × String) (String × String) := ∅
  attemptIdempotency : Dict (String × String) (String × String × AttemptMode) := ∅
  claims : Dict String TestWorldLease := ∅
  generations : Dict String Nat := ∅

/-- `d[k]`. -/
def item {κ α : Type} [DecidableEq κ] (d : Dict κ α) (k : κ) : Except TestWorldFault α :=
  match d.get? k with
  | some a => .ok a
  | none => .error .keyError

/-- The two leases name the same attempt generation of the same worker. -/
def sameLease (a b : TestWorldLease) : Bool :=
  a.workerId == b.workerId && a.generation == b.generation && a.ownerId == b.ownerId &&
    a.worldId == b.worldId

namespace MemoryTestWorldStore

variable (D : Digests) (float : ℚ → String) (s : MemoryTestWorldStore)

/-- `self._worlds[world.id] = replace(world, status=…, updated_at=…)`. -/
def setStatus (world : TestWorld) (status : WorldStatus) (t : Time) : MemoryTestWorldStore :=
  { s with worlds := s.worlds.set world.id { world with status, updatedAt := t } }

/-- `create_world`; `uuid` is what `uuid.uuid4()` returns. -/
def createWorld (ownerId idempotencyKey : String) (d : WorldDefinition) (uuid : Uuid) (t : Time) :
    Except TestWorldFault (TestWorld × MemoryTestWorldStore) :=
  if definitionAdmits ownerId idempotencyKey d = false then
    .error (.valueError "invalid test world definition")
  else
    let fingerprint := D.worldFingerprint d
    match s.worldIdempotency.get? (ownerId, idempotencyKey) with
    | some (worldId, previous) =>
      if previous ≠ fingerprint then .error (.conflict "idempotency key reused")
      else (item s.worlds worldId).map fun world => (world, s)
    | none =>
      let world : TestWorld :=
        { id := "world:" ++ uuid.hex, ownerId, name := strip d.name, objective := strip d.objective
          repositoryUrl := d.repositoryUrl, commit := d.commit, checks := d.checks
          maxAttempts := d.maxAttempts, status := .ready, fingerprint
          judgeVersion := D.judgeVersion d.checks, createdAt := t, updatedAt := t }
      .ok (world, { s with
        worlds := s.worlds.set world.id world
        attemptIds := s.attemptIds.set world.id []
        worldIdempotency := s.worldIdempotency.set (ownerId, idempotencyKey) (world.id, fingerprint) })

/-- The world under an id and an owner. -/
def ownedWorld (worldId ownerId : String) : Option TestWorld :=
  (s.worlds.get? worldId).filter fun world => world.ownerId == ownerId

/-- `get_world`. -/
def getWorld (worldId ownerId : String) : Option TestWorld := s.ownedWorld worldId ownerId

/-- The attempts of a world, in the order they were queued. -/
def worldAttempts (worldId : String) : Except TestWorldFault (List TestWorldAttempt) := do
  let ids ← item s.attemptIds worldId
  ids.mapM (item s.attempts)

/-- `list_attempts`. -/
def listAttempts (worldId ownerId : String) : Except TestWorldFault (List TestWorldAttempt) :=
  match s.ownedWorld worldId ownerId with
  | none => .error (.notFound "world not found")
  | some _ => s.worldAttempts worldId

/-- `get_attempt`. -/
def getAttempt (attemptId ownerId : String) : Option TestWorldAttempt :=
  (s.attempts.get? attemptId).filter fun attempt => attempt.ownerId == ownerId

/-- `enqueue_attempt`. -/
def enqueueAttempt (worldId ownerId idempotencyKey mode : String) (uuid : Uuid) (t : Time) :
    Except TestWorldFault (TestWorldAttempt × MemoryTestWorldStore) :=
  if keyAdmits idempotencyKey = false then .error (.valueError "invalid idempotency key")
  else match AttemptMode.ofValue? mode with
  | none => .error (.valueError "invalid attempt mode")
  | some attemptMode =>
    match s.attemptIdempotency.get? (ownerId, idempotencyKey) with
    | some (previousWorldId, attemptId, previousMode) =>
      if previousWorldId ≠ worldId ∨ previousMode ≠ attemptMode then
        .error (.conflict "idempotency key reused")
      else (item s.attempts attemptId).map fun attempt => (attempt, s)
    | none =>
      match s.ownedWorld worldId ownerId with
      | none => .error (.notFound "world not found")
      | some world =>
        if world.status.closed then .error (.limitReached "world cannot accept another attempt")
        else do
          let attemptIds ← item s.attemptIds worldId
          let attempts ← s.worldAttempts worldId
          if attempts.any fun a => a.status.active then
            .error (.conflict "world already has an active attempt")
          else if (attemptIds.length : Int) ≥ world.maxAttempts then
            .error (.limitReached "attempt budget exhausted")
          else
            let attempt : TestWorldAttempt :=
              { id := "attempt:" ++ uuid.hex, worldId, ownerId, number := attemptIds.length + 1
                status := .queued, worldFingerprint := world.fingerprint
                judgeVersion := world.judgeVersion, mode := attemptMode
                previousAttemptId := attemptIds.getLast?, createdAt := t }
            let s : MemoryTestWorldStore := { s with
              attempts := s.attempts.set attempt.id attempt
              attemptIds := s.attemptIds.set worldId (attemptIds ++ [attempt.id])
              attemptIdempotency := s.attemptIdempotency.set (ownerId, idempotencyKey)
                (worldId, attempt.id, attemptMode) }
            .ok (attempt, s.setStatus world .running t)

/-- `claim is None or claim.expires_at <= current_time`. -/
def claimable (attemptId : String) (t : Time) : Bool :=
  (s.claims.get? attemptId).all fun claim => decide (claim.expiresAt ≤ t)

/-- `list_schedulable_attempts`. -/
def listSchedulableAttempts (limit : Int) (t : Time) : Except TestWorldFault (List TestWorldAttempt) :=
  if ¬(1 ≤ limit ∧ limit ≤ 1000) then .error (.valueError "invalid scheduler limit")
  else .ok (((s.attempts.values.insertionSort attemptBefore).filter fun a =>
    decide (a.status = .queued) && s.claimable a.id t).take limit.toNat)

/-- One round of the loop of `reconcile_active_attempts`. -/
def reconcileAttempt (limit : Int) (t : Time) (attempt : TestWorldAttempt)
    (r : List TestWorldAttempt × MemoryTestWorldStore) :
    Except TestWorldFault (List TestWorldAttempt × MemoryTestWorldStore) :=
  let (recovered, s) := r
  if (recovered.length : Int) ≥ limit ∨ attempt.status ≠ .running then .ok r
  else if s.claimable attempt.id t = false then .ok r
  else do
    let queued : TestWorldAttempt := { attempt with status := .queued, startedAt := none }
    let world ← item s.worlds attempt.worldId
    let s : MemoryTestWorldStore := { s with
      attempts := s.attempts.set attempt.id queued
      claims := s.claims.erase attempt.id }
    .ok (recovered ++ [queued], s.setStatus world .running t)

/-- `reconcile_active_attempts`. -/
def reconcileActiveAttempts (limit : Int) (t : Time) :
    Except TestWorldFault (List TestWorldAttempt × MemoryTestWorldStore) :=
  if ¬(1 ≤ limit ∧ limit ≤ 1000) then .error (.valueError "invalid scheduler limit")
  else (s.attempts.values.insertionSort attemptBefore).foldlM
    (fun r attempt => reconcileAttempt limit t attempt r) ([], s)

/-- `claim_attempt`. -/
def claimAttempt (attemptId workerId : String) (leaseSeconds : Int) (t : Time) :
    Except TestWorldFault (Option TestWorldLease × MemoryTestWorldStore) :=
  if workerId = "" ∨ leaseSeconds ≤ 0 then .error (.valueError "invalid lease")
  else match s.attempts.get? attemptId with
  | none => .ok (none, s)
  | some attempt =>
    if attempt.status ≠ .queued ∨ s.claimable attemptId t = false then .ok (none, s)
    else do
      let generation := (s.generations.get? attemptId).getD 0 + 1
      let lease : TestWorldLease :=
        { attemptId := attempt.id, worldId := attempt.worldId, ownerId := attempt.ownerId, workerId
          generation, expiresAt := t + leaseSeconds }
      let world ← item s.worlds attempt.worldId
      let s : MemoryTestWorldStore := { s with
        generations := s.generations.set attemptId generation
        claims := s.claims.set attemptId lease
        attempts := s.attempts.set attemptId { attempt with status := .running, startedAt := some t } }
      .ok (some lease, s.setStatus world .running t)

/-- `renew_attempt`. -/
def renewAttempt (lease : TestWorldLease) (leaseSeconds : Int) (t : Time) :
    Except TestWorldFault (TestWorldLease × MemoryTestWorldStore) :=
  if leaseSeconds ≤ 0 then .error (.valueError "invalid lease")
  else match s.claims.get? lease.attemptId with
  | none => .error (.conflict "stale attempt lease")
  | some current =>
    if sameLease current lease = false ∨ current.expiresAt ≤ t then
      .error (.conflict "stale attempt lease")
    else
      let renewed := { current with expiresAt := t + leaseSeconds }
      .ok (renewed, { s with claims := s.claims.set lease.attemptId renewed })

/-- `release_attempt`. -/
def releaseAttempt (lease : TestWorldLease) : Except TestWorldFault (Unit × MemoryTestWorldStore) :=
  if s.claims.get? lease.attemptId = some lease then
    .ok ((), { s with claims := s.claims.erase lease.attemptId })
  else .ok ((), s)

/-- The attempt whose claim lets the holder of the lease end it. -/
def leasedAttempt (lease : TestWorldLease) (admits : TestWorldLease → TestWorldAttempt → Bool) :
    Except TestWorldFault TestWorldAttempt :=
  match s.claims.get? lease.attemptId, s.attempts.get? lease.attemptId with
  | some current, some attempt =>
    if admits current attempt then .ok attempt else .error (.conflict "stale attempt lease")
  | _, _ => .error (.conflict "stale attempt lease")

/-- `complete_attempt`. -/
def completeAttempt (lease : TestWorldLease) (c : CompleteCall) (t : Time) :
    Except TestWorldFault (TestWorldAttempt × MemoryTestWorldStore) := do
  let result ← c.validate float
  let attempt ← s.leasedAttempt lease fun current attempt =>
    sameLease current lease && attempt.status == .running
  let world ← item s.worlds attempt.worldId
  if attempt.worldFingerprint ≠ world.fingerprint ∨ attempt.judgeVersion ≠ world.judgeVersion then
    .error (.conflict "attempt challenge version mismatch")
  else if result.passed = true ∧ hasCompletePassProof world result.feedback = false then
    .error (.conflict "pass requires complete judge proof")
  else
    let s : MemoryTestWorldStore := { s with
      attempts := s.attempts.set attempt.id (attempt.judged result t)
      claims := s.claims.erase attempt.id }
    .ok (attempt.judged result t,
      s.setStatus world (judgedStatus result.passed attempt.number world.maxAttempts) t)

/-- `fail_attempt`. -/
def failAttempt (lease : TestWorldLease) (c : FailCall) (t : Time) :
    Except TestWorldFault (TestWorldAttempt × MemoryTestWorldStore) := do
  let error ← c.validate float
  let attempt ← s.leasedAttempt lease fun current attempt =>
    attempt.status == .running && attempt.worldId == lease.worldId &&
      attempt.ownerId == lease.ownerId && current == lease
  let s : MemoryTestWorldStore := { s with
    attempts := s.attempts.set attempt.id (attempt.errored error t)
    claims := s.claims.erase attempt.id }
  let world ← item s.worlds attempt.worldId
  .ok (attempt.errored error t,
    s.setStatus world (erroredStatus c.blocked attempt.number world.maxAttempts) t)

end MemoryTestWorldStore

/-! ## Calls -/

/-- One call of a store operation that may write, with its arguments. -/
inductive Call
  | createWorld (ownerId idempotencyKey : String) (d : WorldDefinition) (uuid : Uuid)
  | enqueueAttempt (worldId ownerId idempotencyKey mode : String) (uuid : Uuid)
  | reconcileActiveAttempts (limit : Int)
  | claimAttempt (attemptId workerId : String) (leaseSeconds : Int)
  | renewAttempt (lease : TestWorldLease) (leaseSeconds : Int)
  | releaseAttempt (lease : TestWorldLease)
  | completeAttempt (lease : TestWorldLease) (c : CompleteCall)
  | failAttempt (lease : TestWorldLease) (c : FailCall)

/-- What a call answers. -/
inductive Answer
  | world (w : TestWorld)
  | attempt (a : TestWorldAttempt)
  | attempts (l : List TestWorldAttempt)
  | claim (l : Option TestWorldLease)
  | lease (l : TestWorldLease)
  | unit

/-- The answer of an operation, wrapped. -/
def wrap {α σ : Type} (f : α → Answer) (x : Except TestWorldFault (α × σ)) :
    Except TestWorldFault (Answer × σ) := x.map fun r => (f r.1, r.2)

/-- Run one call against the in-memory store. -/
def MemoryTestWorldStore.call (D : Digests) (float : ℚ → String) (s : MemoryTestWorldStore) (t : Time) :
    Call → Except TestWorldFault (Answer × MemoryTestWorldStore)
  | .createWorld owner key d uuid => wrap .world (s.createWorld D owner key d uuid t)
  | .enqueueAttempt worldId owner key mode uuid =>
    wrap .attempt (s.enqueueAttempt worldId owner key mode uuid t)
  | .reconcileActiveAttempts limit => wrap .attempts (s.reconcileActiveAttempts limit t)
  | .claimAttempt attemptId worker seconds => wrap .claim (s.claimAttempt attemptId worker seconds t)
  | .renewAttempt lease seconds => wrap .lease (s.renewAttempt lease seconds t)
  | .releaseAttempt lease => wrap (fun _ => .unit) (s.releaseAttempt lease)
  | .completeAttempt lease c => wrap .attempt (s.completeAttempt float lease c t)
  | .failAttempt lease c => wrap .attempt (s.failAttempt float lease c t)

end LilTweak.Worlds
