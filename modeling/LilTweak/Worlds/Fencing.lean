import LilTweak.Lib.Fence
import LilTweak.Worlds.Lifecycle
import Mathlib

/-!
# Who may end an attempt

The record of an attempt's leases, as the answers of the calls show it: a claim grants, a
reconciliation that queues the attempt again revokes, and an accepted completion or failure
settles. Both stores keep the record of every attempt fenced.
-/

namespace LilTweak.Worlds

open LilTweak.Lib LilTweak.Core LilTweak.Store

/-- Who holds a lease. -/
abbrev Holder := String × String × String

def TestWorldLease.holder (lease : TestWorldLease) : Holder := (lease.workerId, lease.ownerId, lease.worldId)

/-- What a call and its answer say about the lease of an attempt. -/
def leaseEvents (attemptId : String) : Call → Except TestWorldFault Answer → List (LeaseEvent Holder)
  | .claimAttempt _ _ _, .ok (.claim (some lease)) =>
    if lease.attemptId = attemptId then [.granted lease.generation lease.holder] else []
  | .reconcileActiveAttempts _, .ok (.attempts recovered) =>
    if recovered.any (fun a => a.id == attemptId) then [.revoked] else []
  | .completeAttempt lease _, .ok _ | .failAttempt lease _, .ok _ =>
    if lease.attemptId = attemptId then [.settled lease.generation lease.holder] else []
  | _, _ => []

/-! ## The in-memory store -/

namespace MemoryTestWorldStore

variable {D : Digests} {float : ℚ → String} {s s' u : MemoryTestWorldStore} {t : Time} {attemptId : String}
  {l : List (LeaseEvent Holder)}

/-- The attempt is stored and has ended. -/
def Ended (s : MemoryTestWorldStore) (attemptId : String) : Prop :=
  ∃ a, s.attempts.get? attemptId = some a ∧ a.status.active = false

/-- The store remembers what the record says. -/
def Fences (s : MemoryTestWorldStore) (attemptId : String) (l : List (LeaseEvent Holder)) : Prop :=
  Holds l ((s.generations.get? attemptId).getD 0 : Nat)
    ((s.claims.get? attemptId).map fun claim => (claim.generation, claim.holder)) (s.Ended attemptId)

theorem Forward.ended (h : Forward s s') (he : s.Ended attemptId) : s'.Ended attemptId := by
  obtain ⟨a, ha, hended⟩ := he
  exact ⟨a, h.finished _ a ha hended, hended⟩

/-- A call that neither grants, revokes nor settles. -/
theorem Fences.keep (h : s.Fences attemptId l) (hf : Forward s s')
    (hgen : s'.generations.get? attemptId = s.generations.get? attemptId)
    (hclaim : ∀ c', s'.claims.get? attemptId = some c' →
      ∃ c, s.claims.get? attemptId = some c ∧ c.generation = c'.generation ∧ c.holder = c'.holder) :
    s'.Fences attemptId l := by
  apply Holds.weaken h
  · rw [hgen]
  · intro p hp
    obtain ⟨c', hc', rfl⟩ := Option.map_eq_some_iff.mp hp
    obtain ⟨c, hc, hgeneration, hholder⟩ := hclaim c' hc'
    exact Option.map_eq_some_iff.mpr ⟨c, hc, by rw [hgeneration, hholder]⟩
  · exact hf.ended

theorem Fences.same (h : s.Fences attemptId l) (hf : Forward s s') (hgen : s'.generations = s.generations)
    (hclaims : s'.claims = s.claims) : s'.Fences attemptId l :=
  h.keep hf (by rw [hgen]) fun c hc => ⟨c, hclaims ▸ hc, rfl, rfl⟩

theorem createWorld_claims {owner key : String} {d : WorldDefinition} {uuid : Uuid} :
    Yields (fun r => r.2.generations = s.generations ∧ r.2.claims = s.claims) (fun _ => True)
      (s.createWorld D owner key d uuid t) := by
  refine Yields.ite (fun _ => trivial) fun _ => ?_
  dsimp only
  split
  · refine Yields.ite (fun _ => trivial) fun _ => ?_
    apply Yields.map
    exact (item_yields _ _).weaken (fun _ _ => ⟨rfl, rfl⟩) fun _ _ => trivial
  · exact ⟨rfl, rfl⟩

theorem enqueueAttempt_claims {worldId owner key mode : String} {uuid : Uuid} :
    Yields (fun r => r.2.generations = s.generations ∧ r.2.claims = s.claims) (fun _ => True)
      (s.enqueueAttempt worldId owner key mode uuid t) := by
  refine Yields.ite (fun _ => trivial) fun _ => ?_
  split
  · trivial
  split
  · refine Yields.ite (fun _ => trivial) fun _ => ?_
    apply Yields.map
    exact (item_yields _ _).weaken (fun _ _ => ⟨rfl, rfl⟩) fun _ _ => trivial
  split
  · trivial
  refine Yields.ite (fun _ => trivial) fun _ => ?_
  refine (item_yields _ _).bind fun ids _ => ?_
  cases s.worldAttempts worldId with
  | error e => trivial
  | ok attempts => exact Yields.ite (fun _ => trivial) fun _ => Yields.ite (fun _ => trivial) fun _ => ⟨rfl, rfl⟩

/-- A claim grants the next generation of its attempt, or changes nothing. -/
theorem claimAttempt_grants (h : Tied s) {workerId : String} {seconds : Int} :
    Yields (fun r => (r.1 = none ∧ r.2 = s) ∨ ∃ lease, r.1 = some lease ∧ lease.attemptId = attemptId ∧
      lease.generation = (((s.generations.get? attemptId).getD 0 + 1 : Nat) : Int) ∧
      r.2.generations = s.generations.set attemptId ((s.generations.get? attemptId).getD 0 + 1) ∧
      r.2.claims = s.claims.set attemptId lease) (fun _ => True)
      (s.claimAttempt attemptId workerId seconds t) := by
  refine Yields.ite (fun _ => trivial) fun _ => ?_
  split
  · exact .inl ⟨rfl, rfl⟩
  next attempt ha =>
  refine Yields.ite (fun _ => .inl ⟨rfl, rfl⟩) fun _ => ?_
  refine (item_yields _ _).bind fun w _ => ?_
  exact .inr ⟨_, rfl, (h.attempt _ _ ha).1, rfl, rfl, rfl⟩

theorem renewAttempt_claims {lease : TestWorldLease} {seconds : Int} :
    Yields (fun r => r.2.generations = s.generations ∧ ∃ current, s.claims.get? lease.attemptId = some current ∧
      r.2.claims = s.claims.set lease.attemptId { current with expiresAt := t + seconds }) (fun _ => True)
      (s.renewAttempt lease seconds t) := by
  refine Yields.ite (fun _ => trivial) fun _ => ?_
  split
  · trivial
  next current hcurrent => exact Yields.ite (fun _ => trivial) fun _ => ⟨rfl, current, hcurrent, rfl⟩

theorem releaseAttempt_claims {lease : TestWorldLease} :
    Yields (fun r => r.2.generations = s.generations ∧
      (r.2.claims = s.claims ∨ r.2.claims = s.claims.erase lease.attemptId)) (fun _ => True)
      (s.releaseAttempt lease) :=
  Yields.ite (fun _ => ⟨rfl, .inr rfl⟩) fun _ => ⟨rfl, .inl rfl⟩

/-- What an accepted completion or failure under a lease comes to. -/
structure Settles (s : MemoryTestWorldStore) (lease : TestWorldLease) (s' : MemoryTestWorldStore) : Prop where
  generations : s'.generations = s.generations
  claims : s'.claims = s.claims.erase lease.attemptId
  held : ∃ current, s.claims.get? lease.attemptId = some current ∧
    current.generation = lease.generation ∧ current.holder = lease.holder
  running : ∃ a, s.attempts.get? lease.attemptId = some a ∧ a.status = .running
  ended : s'.Ended lease.attemptId

theorem completeAttempt_settles (h : Tied s) {lease : TestWorldLease} {c : CompleteCall} :
    Yields (fun r => s.Settles lease r.2) (fun _ => True) (s.completeAttempt float lease c t) := by
  unfold completeAttempt
  cases c.validate float with
  | error e => trivial
  | ok result =>
    refine (leasedAttempt_admits lease _).bind fun attempt hleased => ?_
    obtain ⟨ha, current, hclaim, hadmits⟩ := hleased
    refine (item_yields _ _).bind fun w _ => ?_
    refine Yields.ite (fun _ => trivial) fun _ => Yields.ite (fun _ => trivial) fun _ => ?_
    have hid := (h.attempt _ _ ha).1
    simp only [sameLease, Bool.and_eq_true, beq_iff_eq] at hadmits
    obtain ⟨⟨⟨⟨hworker, hgeneration⟩, howner⟩, hworld⟩, hrunning⟩ := hadmits
    refine ⟨rfl, by rw [← hid]; rfl, ⟨current, hclaim, hgeneration, ?_⟩, ⟨attempt, ha, hrunning⟩, ?_⟩
    · rw [TestWorldLease.holder, hworker, howner, hworld]
      rfl
    · refine ⟨attempt.judged result t, by rw [← hid]; exact Dict.get?_set_self _ _ _, ?_⟩
      unfold TestWorldAttempt.judged
      cases result.passed <;> rfl

theorem failAttempt_settles (h : Tied s) {lease : TestWorldLease} {c : FailCall} :
    Yields (fun r => s.Settles lease r.2) (fun _ => True) (s.failAttempt float lease c t) := by
  unfold failAttempt
  cases c.validate float with
  | error e => trivial
  | ok error =>
    refine (leasedAttempt_admits lease _).bind fun attempt hleased => ?_
    obtain ⟨ha, current, hclaim, hadmits⟩ := hleased
    refine (item_yields _ _).bind fun w _ => ?_
    have hid := (h.attempt _ _ ha).1
    simp only [Bool.and_eq_true, beq_iff_eq] at hadmits
    obtain ⟨⟨⟨hrunning, -⟩, -⟩, rfl⟩ := hadmits
    refine ⟨rfl, by rw [← hid]; rfl, ⟨current, hclaim, rfl, rfl⟩, ⟨attempt, ha, hrunning⟩, ?_⟩
    exact ⟨attempt.errored error t, by rw [← hid]; exact Dict.get?_set_self _ _ _, rfl⟩

/-- What a reconciliation has done to the claims so far. -/
structure Requeues (s : MemoryTestWorldStore) (r : List TestWorldAttempt × MemoryTestWorldStore) : Prop where
  generations : r.2.generations = s.generations
  erased : ∀ a ∈ r.1, r.2.claims.get? a.id = none
  kept : ∀ id, (∀ a ∈ r.1, a.id ≠ id) → r.2.claims.get? id = s.claims.get? id

theorem reconcileAttempt_requeues {limit : Int} {attempt : TestWorldAttempt}
    {r : List TestWorldAttempt × MemoryTestWorldStore} (h : s.Requeues r) :
    Yields (fun r => s.Requeues r) (fun _ => True) (reconcileAttempt limit t attempt r) := by
  unfold reconcileAttempt
  refine Yields.ite (fun _ => h) fun _ => Yields.ite (fun _ => h) fun _ => ?_
  refine (item_yields _ _).bind fun w _ => ?_
  refine ⟨h.generations, fun a ha => ?_, fun id hid => ?_⟩
  · show (r.2.claims.erase attempt.id).get? a.id = none
    rw [Dict.get?_erase]
    split
    · rfl
    · next hne =>
      rcases List.mem_append.mp ha with hold | hlast
      · exact h.erased a hold
      · exact absurd (by rw [List.mem_singleton.mp hlast]) hne
  · show (r.2.claims.erase attempt.id).get? id = _
    have hne : id ≠ attempt.id := by
      have hlast := hid _ (List.mem_append_right _ (List.mem_singleton_self _))
      exact fun he => hlast he.symm
    rw [Dict.get?_erase_ne _ hne]
    exact h.kept id fun a ha => hid a (List.mem_append_left _ ha)

theorem reconcileActiveAttempts_requeues {limit : Int} :
    Yields (fun r => s.Requeues r) (fun _ => True) (s.reconcileActiveAttempts limit t) := by
  refine Yields.ite (fun _ => trivial) fun _ => ?_
  apply Yields.foldlM (P := fun r : List TestWorldAttempt × MemoryTestWorldStore => s.Requeues r)
  · exact ⟨rfl, fun a ha => absurd ha List.not_mem_nil, fun _ _ => rfl⟩
  · exact fun r attempt _ hr => reconcileAttempt_requeues hr

theorem Fences.settle {lease : TestWorldLease} (h : s.Fences attemptId l) (hf : Forward s s')
    (hs : s.Settles lease s') :
    s'.Fences attemptId (l ++ if lease.attemptId = attemptId then [.settled lease.generation lease.holder] else []) := by
  by_cases ha : lease.attemptId = attemptId
  · subst ha
    rw [if_pos rfl]
    obtain ⟨current, hclaim, hgeneration, hholder⟩ := hs.held
    have hopen : ¬s.Ended lease.attemptId := by
      rintro ⟨a, ha, hended⟩
      obtain ⟨b, hb, hrunning⟩ := hs.running
      obtain rfl := Option.some.inj (ha.symm.trans hb)
      rw [hrunning] at hended
      cases hended
    have hgrant : Holds l ((s.generations.get? lease.attemptId).getD 0 : Nat)
        (some (lease.generation, lease.holder)) (s.Ended lease.attemptId) := by
      have hholds : Holds l ((s.generations.get? lease.attemptId).getD 0 : Nat)
          ((s.claims.get? lease.attemptId).map fun claim => (claim.generation, claim.holder))
          (s.Ended lease.attemptId) := h
      rw [hclaim, Option.map_some, hgeneration, hholder] at hholds
      exact hholds
    have hnone : s'.claims.get? lease.attemptId = none := by rw [hs.claims, Dict.get?_erase_self]
    unfold Fences
    rw [hnone, hs.generations]
    exact hgrant.settled hopen hs.ended
  · rw [if_neg ha, List.append_nil]
    apply h.keep hf (by rw [hs.generations])
    intro c hc
    rw [hs.claims, Dict.get?_erase_ne _ (Ne.symm ha)] at hc
    exact ⟨c, hc, rfl, rfl⟩

theorem Fences.grant {lease : TestWorldLease} (h : s.Fences attemptId l) (hf : Forward s s')
    (hgeneration : lease.generation = (((s.generations.get? lease.attemptId).getD 0 + 1 : Nat) : Int))
    (hgenerations : s'.generations = s.generations.set lease.attemptId ((s.generations.get? lease.attemptId).getD 0 + 1))
    (hclaims : s'.claims = s.claims.set lease.attemptId lease) :
    s'.Fences attemptId (l ++ if lease.attemptId = attemptId then [.granted lease.generation lease.holder] else []) := by
  by_cases ha : lease.attemptId = attemptId
  · subst ha
    rw [if_pos rfl]
    unfold Fences
    rw [hgenerations, hclaims, Dict.get?_set_self, Dict.get?_set_self, Option.getD_some, Option.map_some,
      ← hgeneration]
    apply Holds.granted
    · exact Holds.weaken h (le_refl _) (fun _ hp => hp) hf.ended
    · rw [hgeneration]
      omega
  · rw [if_neg ha, List.append_nil]
    apply h.keep hf
    · rw [hgenerations, Dict.get?_set_ne _ _ (Ne.symm ha)]
    · intro c hc
      rw [hclaims, Dict.get?_set_ne _ _ (Ne.symm ha)] at hc
      exact ⟨c, hc, rfl, rfl⟩

theorem Fences.requeue {r : List TestWorldAttempt × MemoryTestWorldStore} (h : s.Fences attemptId l)
    (hf : Forward s r.2) (hr : s.Requeues r) :
    r.2.Fences attemptId (l ++ if r.1.any (fun a => a.id == attemptId) then [.revoked] else []) := by
  by_cases ha : r.1.any (fun a => a.id == attemptId) = true
  · obtain ⟨a, hmem, hid⟩ := List.any_eq_true.mp ha
    obtain rfl := beq_iff_eq.mp hid
    rw [if_pos ha]
    unfold Fences
    rw [hr.erased a hmem, hr.generations]
    exact (Holds.weaken h (le_refl _) (fun _ hp => hp) hf.ended).revoked
  · rw [if_neg ha, List.append_nil]
    apply h.keep hf (by rw [hr.generations])
    intro c hc
    rw [hr.kept attemptId] at hc
    · exact ⟨c, hc, rfl, rfl⟩
    · intro a hmem hid
      exact ha (List.any_eq_true.mpr ⟨a, hmem, beq_iff_eq.mpr hid⟩)

end MemoryTestWorldStore

theorem wrap_ok {α σ : Type} {f : α → Answer} {x : Except TestWorldFault (α × σ)} {r : Answer × σ}
    (h : wrap f x = .ok r) : ∃ q, x = .ok q ∧ r = (f q.1, q.2) := by
  cases x with
  | error e => cases h
  | ok q => exact ⟨q, rfl, (Except.ok.inj h).symm⟩

theorem of_yields {ε α : Type} {ok : α → Prop} {err : ε → Prop} {x : Except ε α} {a : α}
    (h : Yields ok err x) (hx : x = .ok a) : ok a := by
  rw [hx] at h
  exact h

namespace MemoryTestWorldStore

variable {D : Digests} {float : ℚ → String} {s s' u : MemoryTestWorldStore} {t : Time} {attemptId : String}
  {l : List (LeaseEvent Holder)}

theorem call_fences (h : Lawful s) (c : Call) (hfresh : s.Fresh c) (hl : s.Fences attemptId l)
    {r : Answer × MemoryTestWorldStore} (hr : s.call D float t c = .ok r) :
    r.2.Fences attemptId (l ++ leaseEvents attemptId c (.ok r.1)) := by
  have hf : Forward s r.2 := (of_yields (call_proceeds h c hfresh) hr).2
  cases c with
  | createWorld owner key d uuid =>
    obtain ⟨q, hq, rfl⟩ := wrap_ok hr
    obtain ⟨hgen, hclaims⟩ := of_yields createWorld_claims hq
    exact (List.append_nil l).symm ▸ hl.same hf hgen hclaims
  | enqueueAttempt worldId owner key mode uuid =>
    obtain ⟨q, hq, rfl⟩ := wrap_ok hr
    obtain ⟨hgen, hclaims⟩ := of_yields enqueueAttempt_claims hq
    exact (List.append_nil l).symm ▸ hl.same hf hgen hclaims
  | reconcileActiveAttempts limit =>
    obtain ⟨q, hq, rfl⟩ := wrap_ok hr
    exact hl.requeue hf (of_yields reconcileActiveAttempts_requeues hq)
  | claimAttempt id worker seconds =>
    obtain ⟨⟨claim, s'⟩, hq, rfl⟩ := wrap_ok hr
    rcases of_yields (claimAttempt_grants h.tied) hq with ⟨hnone, hs⟩ | ⟨lease, hsome, rfl, hgen, hgens, hclaims⟩
    · subst hs
      obtain rfl : claim = none := hnone
      exact (List.append_nil l).symm ▸ hl
    · obtain rfl : claim = some lease := hsome
      exact hl.grant hf hgen hgens hclaims
  | renewAttempt lease seconds =>
    obtain ⟨q, hq, rfl⟩ := wrap_ok hr
    obtain ⟨hgen, current, hcurrent, hclaims⟩ := of_yields renewAttempt_claims hq
    refine (List.append_nil l).symm ▸ hl.keep hf (by rw [hgen]) fun c hc => ?_
    rw [hclaims, Dict.get?_set] at hc
    split at hc
    · next ha =>
      obtain rfl := Option.some.inj hc
      exact ⟨current, ha ▸ hcurrent, rfl, rfl⟩
    · exact ⟨c, hc, rfl, rfl⟩
  | releaseAttempt lease =>
    obtain ⟨q, hq, rfl⟩ := wrap_ok (f := fun _ => Answer.unit) hr
    obtain ⟨hgen, hclaims⟩ := of_yields releaseAttempt_claims hq
    refine (List.append_nil l).symm ▸ hl.keep hf (by rw [hgen]) fun c hc => ?_
    rcases hclaims with hsame | herased
    · rw [hsame] at hc
      exact ⟨c, hc, rfl, rfl⟩
    · rw [herased, Dict.get?_erase] at hc
      split at hc
      · cases hc
      · exact ⟨c, hc, rfl, rfl⟩
  | completeAttempt lease c =>
    obtain ⟨q, hq, rfl⟩ := wrap_ok hr
    have hsettles := of_yields (completeAttempt_settles h.tied) hq
    exact hl.settle hf hsettles
  | failAttempt lease c =>
    obtain ⟨q, hq, rfl⟩ := wrap_ok hr
    have hsettles := of_yields (failAttempt_settles h.tied) hq
    exact hl.settle hf hsettles

/-- The record of an attempt over a sequence of calls. -/
def record (D : Digests) (float : ℚ → String) (attemptId : String) :
    MemoryTestWorldStore → List (Call × Time) → List (LeaseEvent Holder)
  | _, [] => []
  | s, c :: l => leaseEvents attemptId c.1 ((s.call D float c.2 c.1).map Prod.fst) ++
      record D float attemptId (s.after D float c) l

theorem leaseEvents_error (c : Call) (e : TestWorldFault) : leaseEvents attemptId c (.error e) = [] := by
  cases c <;> rfl

theorem record_fenced (h : Lawful s) (calls : List (Call × Time)) (hfresh : AllFresh D float s calls)
    (hl : s.Fences attemptId l) : Fenced (l ++ record D float attemptId s calls) := by
  induction calls generalizing s l with
  | nil => exact (List.append_nil l).symm ▸ hl.fenced
  | cons c calls ih =>
    have hafter : (s.after D float c).Lawful := (foldl_proceeds h [c] ⟨hfresh.1, trivial⟩).1
    rw [record, ← List.append_assoc]
    apply ih hafter hfresh.2
    unfold after
    cases hr : s.call D float c.2 c.1 with
    | error e =>
      rw [Except.map, leaseEvents_error, List.append_nil]
      exact hl
    | ok r => exact call_fences h c.1 hfresh.1 hl hr

theorem fences_empty : Fences {} attemptId [] := Holds.start _ _

end MemoryTestWorldStore

/-! ## The tables -/

namespace PostgresTestWorldStore

variable {D : Digests} {float : ℚ → String} {cols : Columns} {T U : PostgresTestWorldStore} {t : Time}
  {attemptId : String} {l : List (LeaseEvent Holder)}

/-- The row is there and has ended. -/
def Ended (T : PostgresTestWorldStore) (attemptId : String) : Prop :=
  ∃ row, T.attempts.get? attemptId = some row ∧ row.status.active = false

/-- The lease a row honours, under the row's generation. -/
def honoured (row : AttemptRow) : Option (Int × Holder) :=
  row.leaseOwner.map fun worker => (row.leaseGeneration, worker, row.ownerId, row.worldId)

/-- The tables remember what the record says. -/
def Fences (T : PostgresTestWorldStore) (attemptId : String) (l : List (LeaseEvent Holder)) : Prop :=
  Holds l (((T.attempts.get? attemptId).map AttemptRow.leaseGeneration).getD 0 : Nat)
    ((T.attempts.get? attemptId).bind honoured) (T.Ended attemptId)

/-- The attempts of a store but for one row. -/
def Writes (T : PostgresTestWorldStore) (id : String) (row : AttemptRow) (U : PostgresTestWorldStore) : Prop :=
  U.attempts = T.attempts.set id row

theorem putAttempt_writes (id : String) (row : AttemptRow) :
    Yields (T.Writes id row) (fun _ => True) (T.putAttempt id row) :=
  Yields.ite (fun _ => rfl) fun _ => trivial

theorem updateStatus_attempts (worldId ownerId : String) (status : WorldStatus) :
    Yields (fun U : PostgresTestWorldStore => U.attempts = T.attempts) (fun _ => True)
      (T.updateStatus worldId ownerId status t) := by
  unfold updateStatus
  split
  · exact Yields.ite (fun _ => Yields.ite (fun _ => rfl) fun _ => trivial) fun _ => rfl
  · exact rfl

theorem held_exact {α : Type} (v : Option α) : Yields (fun a => v = some a) (fun _ => True) (held v) := by
  cases v with
  | none => trivial
  | some a => exact rfl

theorem Fences.same (h : T.Fences attemptId l) (ha : U.attempts = T.attempts) : U.Fences attemptId l := by
  unfold Fences Ended
  rw [ha]
  exact h

/-- Another row is written. -/
theorem Fences.other (h : T.Fences attemptId l) {id : String} {row : AttemptRow} (hw : T.Writes id row U)
    (hne : attemptId ≠ id) : U.Fences attemptId l := by
  unfold Fences Ended
  rw [hw, Dict.get?_set_ne _ _ hne]
  exact h

/-- The row is written without a new holder. -/
theorem Fences.rewrite (h : T.Fences attemptId l) {old new : AttemptRow} (hold : T.attempts.get? attemptId = some old)
    (hw : T.Writes attemptId new U) (hgen : new.leaseGeneration = old.leaseGeneration)
    (hhonoured : ∀ p, honoured new = some p → honoured old = some p)
    (hended : old.status.active = false → new.status.active = false) : U.Fences attemptId l := by
  unfold Fences at h ⊢
  rw [hold] at h
  rw [hw, Dict.get?_set_self]
  apply h.weaken
  · simp [hgen]
  · exact hhonoured
  · rintro ⟨row, hrow, hend⟩
    obtain rfl := Option.some.inj (hold.symm.trans hrow)
    exact ⟨new, by rw [hw, Dict.get?_set_self], hended hend⟩

/-- What holds of the answer and of the tables an operation commits. -/
def Records (T : PostgresTestWorldStore) (attemptId : String) (call : Call) (r : Answer × PostgresTestWorldStore) : Prop :=
  ∀ l, T.Fences attemptId l → r.2.Fences attemptId (l ++ leaseEvents attemptId call (.ok r.1))

theorem records_wrap {α : Type} {f : α → Answer} {call : Call} {x : Except TestWorldFault (α × PostgresTestWorldStore)}
    (h : Yields (fun r => T.Records attemptId call (f r.1, r.2)) (fun _ => True) x) :
    Yields (T.Records attemptId call) (fun _ => True) (wrap f x) := by
  cases x with
  | error e => trivial
  | ok r => exact h

theorem createWorld_records (owner key : String) (d : WorldDefinition) (uuid : Uuid) :
    Yields (fun r => r.2.attempts = T.attempts) (fun _ => True) (T.createWorld D cols owner key d uuid t) := by
  unfold createWorld
  refine Yields.ite (fun _ => trivial) fun _ => ?_
  refine (held_exact _).bind fun ownerId _ => (held_exact _).bind fun createKey _ => ?_
  split
  · refine Yields.ite (fun _ => trivial) fun _ => ?_
    apply Yields.map
    exact (fetchWorld_yields _ _ True).weaken (fun _ _ => rfl) fun _ _ => trivial
  · refine (held_exact _).bind fun _ _ => (held_exact _).bind fun _ _ => (held_exact _).bind fun _ _ =>
      (held_exact _).bind fun _ _ => (held_exact _).bind fun id _ => ?_
    have hinsert : ∀ row, Yields (fun U : PostgresTestWorldStore => U.attempts = T.attempts) (fun _ => True)
        (T.insertWorld id row) := by
      intro row
      unfold insertWorld
      have hput : Yields (fun U : PostgresTestWorldStore => U.attempts = T.attempts) (fun _ => True)
          (T.putWorld id row) := Yields.ite (fun _ => rfl) fun _ => trivial
      exact hput.bind fun U hU => Yields.ite (fun _ => trivial) fun _ => hU
    refine (hinsert _).bind fun U hU => ?_
    cases U.fetchWorld id ownerId with
    | error e => trivial
    | ok world => exact hU

/-- Inserting a row under a new key. -/
theorem insertAttempt_writes (id : String) (row : AttemptRow) :
    Yields (fun U => T.Writes id row U ∧ T.attempts.get? id = none) (fun _ => True) (T.insertAttempt id row) := by
  unfold insertAttempt
  refine (putAttempt_writes id row).bind fun U hU => Yields.ite (fun _ => trivial) fun hnew => ?_
  refine ⟨hU, Option.eq_none_iff_forall_ne_some.mpr fun old hold => ?_⟩
  exact hnew (.inl ((Dict.contains_iff _ _).mpr ⟨old, hold⟩))

/-- A new row, open and under no lease. -/
theorem Fences.insert (h : T.Fences attemptId l) {id : String} {row : AttemptRow} (hw : T.Writes id row U)
    (hnew : T.attempts.get? id = none) (hgen : row.leaseGeneration = 0) (howner : row.leaseOwner = none) :
    U.Fences attemptId l := by
  by_cases ha : attemptId = id
  · subst ha
    unfold Fences at h ⊢
    rw [hnew] at h
    rw [hw, Dict.get?_set_self]
    apply h.weaken
    · simp [hgen]
    · intro p hp
      simp [honoured, howner] at hp
    · rintro ⟨old, hold, -⟩
      rw [hnew] at hold
      cases hold
  · exact h.other hw ha

theorem enqueueAttempt_records {worldId owner key mode : String} {uuid : Uuid} :
    Yields (fun r => ∀ l, T.Fences attemptId l → r.2.Fences attemptId l) (fun _ => True)
      (T.enqueueAttempt cols worldId owner key mode uuid t) := by
  unfold enqueueAttempt
  refine Yields.ite (fun _ => trivial) fun _ => ?_
  split
  · trivial
  refine (held_exact _).bind fun ownerId _ => (held_exact _).bind fun attemptKey _ => ?_
  split
  · refine Yields.ite (fun _ => trivial) fun _ => ?_
    apply Yields.map
    exact (fetchAttempt_yields _ _ True).weaken (fun _ _ _ hl => hl) fun _ _ => trivial
  refine (held_exact _).bind fun worldId _ => ?_
  cases T.fetchWorld worldId ownerId with
  | error e => trivial
  | ok world =>
    refine Yields.ite (fun _ => trivial) fun _ => Yields.ite (fun _ => trivial) fun _ =>
      Yields.ite (fun _ => trivial) fun _ => ?_
    refine (held_exact _).bind fun id _ => (insertAttempt_writes id _).bind fun U hU => ?_
    refine (updateStatus_attempts worldId ownerId .running).bind fun V hV => ?_
    cases V.fetchAttempt id ownerId with
    | error e => trivial
    | ok attempt => exact fun l hl => (hl.insert hU.1 hU.2 rfl rfl).same hV

theorem bigint_exact {i v : Int} (h : bigint i = some v) : v = i := by
  unfold bigint at h
  split at h
  · exact (Option.some.inj h).symm
  · cases h

theorem claimAttempt_records {id workerId : String} {seconds : Int} :
    Yields (fun r => T.Records attemptId (.claimAttempt id workerId seconds) (.claim r.1, r.2)) (fun _ => True)
      (T.claimAttempt cols id workerId seconds t) := by
  have hnone : T.Records attemptId (.claimAttempt id workerId seconds) (.claim none, T) :=
    fun l hl => (List.append_nil l).symm ▸ hl
  unfold claimAttempt
  refine Yields.ite (fun _ => trivial) fun _ => ?_
  refine (held_exact _).bind fun worker _ => (held_exact _).bind fun expiresAt _ =>
    (held_exact _).bind fun now _ => (held_exact _).bind fun rowId _ => ?_
  split
  · exact hnone
  next row hrow =>
  refine Yields.ite (fun _ => hnone) fun hready => ?_
  rw [not_or, not_not] at hready
  refine (held_exact _).bind fun generation hgeneration => ?_
  obtain rfl := bigint_exact hgeneration
  refine (putAttempt_writes rowId _).bind fun U hU => ?_
  refine (updateStatus_attempts row.worldId row.ownerId .running).bind fun V hV => ?_
  intro l hl
  simp only [leaseEvents]
  refine Fences.same ?_ hV
  by_cases ha : rowId = attemptId
  · subst ha
    rw [if_pos rfl]
    have hopen : ¬T.Ended rowId := by
      rintro ⟨old, hold, hended⟩
      obtain rfl := Option.some.inj (hold.symm.trans hrow)
      rw [hready.1] at hended
      cases hended
    have hgranted : Holds (l ++ [.granted (row.leaseGeneration + 1 : Int) (worker, row.ownerId, row.worldId)])
        (row.leaseGeneration + 1 : Int) (some (row.leaseGeneration + 1, worker, row.ownerId, row.worldId))
        (T.Ended rowId) := by
      apply Holds.granted hl
      rw [hrow]
      simp
    unfold Fences
    rw [hU, Dict.get?_set_self]
    exact hgranted.weaken (le_refl _) (fun _ hp => hp) fun he => absurd he hopen
  · rw [if_neg ha, List.append_nil]
    exact hl.other hU (Ne.symm ha)

theorem leaseColumns_exact (lease : TestWorldLease) :
    Yields (fun bound => bound = lease) (fun _ => True) (leaseColumns cols lease) :=
  (leaseColumns_yields lease True).weaken (fun _ h => h) fun _ _ => trivial

theorem renewAttempt_records {lease : TestWorldLease} {seconds : Int} :
    Yields (fun r => T.Records attemptId (.renewAttempt lease seconds) (.lease r.1, r.2)) (fun _ => True)
      (T.renewAttempt cols lease seconds t) := by
  unfold renewAttempt
  refine Yields.ite (fun _ => trivial) fun _ => ?_
  refine (held_exact _).bind fun expiresAt _ => (held_exact _).bind fun now _ =>
    (leaseColumns_exact lease).bind fun bound hbound => ?_
  subst hbound
  split
  · trivial
  next row hrow =>
  refine Yields.ite (fun _ => trivial) fun _ => ?_
  refine (putAttempt_writes bound.attemptId _).bind fun U hU => ?_
  intro l hl
  simp only [leaseEvents, List.append_nil]
  by_cases ha : attemptId = bound.attemptId
  · subst ha
    exact hl.rewrite hrow hU rfl (fun _ hp => hp) fun he => he
  · exact hl.other hU ha

theorem releaseAttempt_records {lease : TestWorldLease} :
    Yields (fun r => T.Records attemptId (.releaseAttempt lease) (.unit, r.2)) (fun _ => True)
      (T.releaseAttempt cols lease) := by
  have hnone : T.Records attemptId (.releaseAttempt lease) (.unit, T) :=
    fun l hl => (List.append_nil l).symm ▸ hl
  unfold releaseAttempt
  refine (held_exact _).bind fun id _ => (held_exact _).bind fun owner _ => (held_exact _).bind fun worker _ => ?_
  split
  · exact hnone
  next row hrow =>
  refine Yields.ite (fun _ => hnone) fun _ => ?_
  refine (putAttempt_writes id _).bind fun U hU => ?_
  intro l hl
  simp only [leaseEvents, List.append_nil]
  by_cases ha : attemptId = id
  · subst ha
    refine hl.rewrite hrow hU rfl (fun p hp => ?_) fun he => he
    simp [honoured, AttemptRow.released] at hp
  · exact hl.other hU ha

/-- Ending the row a lease holds. -/
theorem Fences.settle {lease : TestWorldLease} {row new : AttemptRow} (h : T.Fences attemptId l)
    (hrow : T.attempts.get? lease.attemptId = some row) (hleased : leasedTo row lease = true)
    (hworld : row.worldId = lease.worldId) (hrunning : row.status = .running)
    (hw : T.Writes lease.attemptId new U) (hgen : new.leaseGeneration = row.leaseGeneration)
    (howner : new.leaseOwner = none) (hended : new.status.active = false) :
    U.Fences attemptId (l ++ if lease.attemptId = attemptId then [.settled lease.generation lease.holder] else []) := by
  by_cases ha : lease.attemptId = attemptId
  · subst ha
    rw [if_pos rfl]
    simp only [leasedTo, Bool.and_eq_true, beq_iff_eq] at hleased
    obtain ⟨⟨hownerId, hworker⟩, hgeneration⟩ := hleased
    have hopen : ¬T.Ended lease.attemptId := by
      rintro ⟨old, hold, hend⟩
      obtain rfl := Option.some.inj (hold.symm.trans hrow)
      rw [hrunning] at hend
      cases hend
    have hdone : U.Ended lease.attemptId := ⟨new, by rw [hw, Dict.get?_set_self], hended⟩
    have hgrant : Holds l (row.leaseGeneration : Int) (some (lease.generation, lease.holder))
        (T.Ended lease.attemptId) := by
      unfold Fences at h
      rw [hrow] at h
      have hp : honoured row = some (lease.generation, lease.holder) := by
        rw [honoured, hworker, Option.map_some, hgeneration, hownerId, hworld]
        rfl
      exact h.weaken (le_refl _) (fun p hs => hp.trans hs) id
    unfold Fences
    rw [hw, Dict.get?_set_self]
    apply (hgrant.settled hopen hdone).weaken
    · simp [hgen]
    · intro p hp
      simp [honoured, howner] at hp
    · exact id
  · rw [if_neg ha, List.append_nil]
    exact h.other hw (Ne.symm ha)

theorem leasedRow_exact (lease : TestWorldLease) :
    Yields (fun row => T.attempts.get? lease.attemptId = some row ∧ leasedTo row lease = true ∧
      row.worldId = lease.worldId ∧ row.status = .running) (fun _ => True) (T.leasedRow lease) := by
  unfold leasedRow
  split
  · trivial
  next row hrow => exact Yields.ite (fun h => ⟨hrow, h⟩) fun _ => trivial

theorem completeAttempt_records {lease : TestWorldLease} {c : CompleteCall} :
    Yields (fun r => T.Records attemptId (.completeAttempt lease c) (.attempt r.1, r.2)) (fun _ => True)
      (T.completeAttempt float cols lease c t) := by
  unfold completeAttempt
  cases c.validate float with
  | error e => trivial
  | ok result =>
    refine (leaseColumns_exact lease).bind fun bound hbound => ?_
    subst hbound
    refine (leasedRow_exact bound).bind fun row hrow => ?_
    obtain ⟨hrow, hleased, hworld, hrunning⟩ := hrow
    cases T.fetchWorld bound.worldId bound.ownerId with
    | error e => trivial
    | ok world =>
      refine Yields.ite (fun _ => trivial) fun _ => Yields.ite (fun _ => trivial) fun _ => ?_
      cases resultColumns cols result with
      | error e => trivial
      | ok set =>
        refine (held_exact _).bind fun now _ => (putAttempt_writes bound.attemptId _).bind fun U hU => ?_
        refine (updateStatus_attempts bound.worldId bound.ownerId _).bind fun V hV => ?_
        cases V.fetchAttempt bound.attemptId bound.ownerId with
        | error e => trivial
        | ok attempt =>
          intro l hl
          refine Fences.same ?_ hV
          apply hl.settle hrow hleased hworld hrunning hU rfl rfl
          unfold AttemptRow.judged
          cases set.passed <;> rfl

theorem failAttempt_records {lease : TestWorldLease} {c : FailCall} :
    Yields (fun r => T.Records attemptId (.failAttempt lease c) (.attempt r.1, r.2)) (fun _ => True)
      (T.failAttempt float cols lease c t) := by
  unfold failAttempt
  cases c.validate float with
  | error e => trivial
  | ok error =>
    refine (leaseColumns_exact lease).bind fun bound hbound => ?_
    subst hbound
    refine (leasedRow_exact bound).bind fun row hrow => ?_
    obtain ⟨hrow, hleased, hworld, hrunning⟩ := hrow
    cases T.fetchWorld bound.worldId bound.ownerId with
    | error e => trivial
    | ok world =>
      refine (held_exact _).bind fun _ _ => (held_exact _).bind fun _ _ => (held_exact _).bind fun now _ => ?_
      refine (putAttempt_writes bound.attemptId _).bind fun U hU => ?_
      refine (updateStatus_attempts bound.worldId bound.ownerId _).bind fun V hV => ?_
      cases V.fetchAttempt bound.attemptId bound.ownerId with
      | error e => trivial
      | ok attempt =>
        intro l hl
        exact (hl.settle hrow hleased hworld hrunning hU rfl rfl rfl).same hV

/-- What queueing the rows again does to each row. -/
theorem requeue_rows : ∀ (rows : List (String × AttemptRow)) (T : PostgresTestWorldStore),
    Yields (fun U : PostgresTestWorldStore => ∀ id,
      (∃ e ∈ rows, e.1 = id ∧ U.attempts.get? id = some e.2.requeued) ∨
        ((∀ e ∈ rows, e.1 ≠ id) ∧ U.attempts.get? id = T.attempts.get? id)) (fun _ => True)
      (rows.foldlM (fun U e => U.putAttempt e.1 e.2.requeued) T)
  | [], T => fun id => .inr ⟨fun e he => absurd he List.not_mem_nil, rfl⟩
  | e :: rows, T => by
    rw [List.foldlM_cons]
    refine (putAttempt_writes e.1 e.2.requeued).bind fun V hV => ?_
    refine (requeue_rows rows V).weaken (fun U hU id => ?_) fun _ _ => trivial
    rcases hU id with ⟨e', he', hid, hrow⟩ | ⟨hnone, hsame⟩
    · exact .inl ⟨e', List.mem_cons_of_mem e he', hid, hrow⟩
    · by_cases hid : id = e.1
      · refine .inl ⟨e, List.mem_cons_self, hid.symm, ?_⟩
        rw [hsame, hV, hid, Dict.get?_set_self]
      · refine .inr ⟨fun e' he' => ?_, ?_⟩
        · rcases List.mem_cons.mp he' with rfl | hrest
          · exact Ne.symm hid
          · exact hnone e' hrest
        · rw [hsame, hV, Dict.get?_set_ne _ _ hid]

/-- The rows are read back under their ids, and the worlds written on the way. -/
theorem read_rows {now : Time} : ∀ (rows : List (String × AttemptRow))
    (r : List TestWorldAttempt × PostgresTestWorldStore),
    Yields (fun r' : List TestWorldAttempt × PostgresTestWorldStore =>
      r'.1.map TestWorldAttempt.id = r.1.map TestWorldAttempt.id ++ rows.map Prod.fst ∧
        r'.2.attempts = r.2.attempts) (fun _ => True)
      (rows.foldlM (fun (r : List TestWorldAttempt × PostgresTestWorldStore) e => do
        let U ← r.2.updateStatus e.2.worldId e.2.ownerId .running now
        let attempt ← U.fetchAttempt e.1 e.2.ownerId
        .ok (r.1 ++ [attempt], U)) r)
  | [], r => ⟨by simp, rfl⟩
  | e :: rows, r => by
    rw [List.foldlM_cons]
    refine Yields.bind (?_ : Yields (fun r' : List TestWorldAttempt × PostgresTestWorldStore =>
      r'.1.map TestWorldAttempt.id = r.1.map TestWorldAttempt.id ++ [e.1] ∧ r'.2.attempts = r.2.attempts)
        (fun _ => True) _) ?_
    · refine (updateStatus_attempts e.2.worldId e.2.ownerId .running).bind fun U hU => ?_
      have hread := fetchAttempt_yields (T := U) e.1 e.2.ownerId True
      cases hf : U.fetchAttempt e.1 e.2.ownerId with
      | error err => trivial
      | ok attempt =>
        rw [hf] at hread
        obtain ⟨row, -, -, rfl⟩ := hread
        refine ⟨?_, hU⟩
        rw [List.map_append]
        rfl
    · intro r' hr'
      refine (read_rows rows r').weaken (fun r'' hr'' => ⟨?_, hr''.2.trans hr'.2⟩) fun _ _ => trivial
      rw [hr''.1, hr'.1, List.map_cons, List.append_assoc, List.singleton_append]

theorem reconcileActiveAttempts_records {limit : Int} :
    Yields (fun r => T.Records attemptId (.reconcileActiveAttempts limit) (.attempts r.1, r.2)) (fun _ => True)
      (T.reconcileActiveAttempts cols limit t) := by
  unfold reconcileActiveAttempts
  refine Yields.ite (fun _ => trivial) fun _ => ?_
  refine (held_exact _).bind fun now _ => ?_
  have hcandidates : ∀ e ∈ (T.expiredRows .running now).take limit.toNat,
      T.attempts.get? e.1 = some e.2 ∧ e.2.status = .running := by
    intro e he
    obtain ⟨hin, hstatus⟩ := List.mem_filter.mp ((List.take_sublist _ _).subset he)
    rw [Bool.and_eq_true, beq_iff_eq] at hstatus
    exact ⟨(Dict.mem_entries_iff _ _ _).mp ((List.mem_insertionSort _).mp hin), hstatus.1⟩
  generalize (T.expiredRows .running now).take limit.toNat = rows at hcandidates
  refine (requeue_rows rows T).bind fun U hU => ?_
  refine (read_rows rows ([], U)).weaken (fun r hr => ?_) fun _ _ => trivial
  obtain ⟨hids, hattempts⟩ := hr
  rw [List.map_nil, List.nil_append] at hids
  intro l hl
  simp only [leaseEvents]
  refine Fences.same ?_ hattempts
  have hany : r.1.any (fun a => a.id == attemptId) = true ↔ ∃ e ∈ rows, e.1 = attemptId := by
    have hmem : attemptId ∈ r.1.map TestWorldAttempt.id ↔ attemptId ∈ rows.map Prod.fst := by rw [hids]
    simpa [List.mem_map] using hmem
  rcases hU attemptId with ⟨e, he, rfl, hrow⟩ | ⟨hnone, hsame⟩
  · rw [if_pos (hany.mpr ⟨e, he, rfl⟩)]
    obtain ⟨hold, hrunning⟩ := hcandidates e he
    unfold Fences at hl ⊢
    rw [hold] at hl
    rw [hrow]
    apply hl.revoked.weaken
    · exact le_refl _
    · intro p hp
      simp [honoured, AttemptRow.requeued] at hp
    · rintro ⟨old, hold', hended⟩
      obtain rfl := Option.some.inj (hold.symm.trans hold')
      rw [hrunning] at hended
      cases hended
  · have hno : ¬(r.1.any (fun a => a.id == attemptId) = true) := by
      intro hin
      obtain ⟨e, he, hid⟩ := hany.mp hin
      exact hnone e he hid
    rw [if_neg hno, List.append_nil]
    unfold Fences Ended
    rw [hsame]
    exact hl

theorem call_records (c : Call) :
    Yields (T.Records attemptId c) (fun _ => True) (T.call D float cols t c) := by
  have unrecorded : ∀ {r : Answer × PostgresTestWorldStore}, leaseEvents attemptId c (.ok r.1) = [] →
      (∀ l, T.Fences attemptId l → r.2.Fences attemptId l) → T.Records attemptId c r := by
    intro r hr hfences l hl
    rw [hr, List.append_nil]
    exact hfences l hl
  cases c with
  | createWorld owner key d uuid =>
    apply records_wrap
    exact (createWorld_records owner key d uuid).weaken
      (fun r hr => unrecorded (r := (.world r.1, r.2)) rfl fun l hl => hl.same hr) fun _ _ => trivial
  | enqueueAttempt worldId owner key mode uuid =>
    apply records_wrap
    exact enqueueAttempt_records.weaken
      (fun r hr => unrecorded (r := (.attempt r.1, r.2)) rfl hr) fun _ _ => trivial
  | reconcileActiveAttempts limit => exact records_wrap reconcileActiveAttempts_records
  | claimAttempt id worker seconds => exact records_wrap claimAttempt_records
  | renewAttempt lease seconds => exact records_wrap renewAttempt_records
  | releaseAttempt lease => exact records_wrap (f := fun _ => Answer.unit) releaseAttempt_records
  | completeAttempt lease c => exact records_wrap completeAttempt_records
  | failAttempt lease c => exact records_wrap failAttempt_records

/-- The record of an attempt over a sequence of calls. -/
def record (D : Digests) (float : ℚ → String) (cols : Columns) (attemptId : String) :
    PostgresTestWorldStore → List (Call × Time) → List (LeaseEvent Holder)
  | _, [] => []
  | T, c :: l => leaseEvents attemptId c.1 ((T.call D float cols c.2 c.1).map Prod.fst) ++
      record D float cols attemptId (T.after D float cols c) l

theorem record_fenced (calls : List (Call × Time)) (hl : T.Fences attemptId l) :
    Fenced (l ++ record D float cols attemptId T calls) := by
  induction calls generalizing T l with
  | nil => exact (List.append_nil l).symm ▸ hl.fenced
  | cons c calls ih =>
    rw [record, ← List.append_assoc]
    apply ih
    unfold after
    cases hr : T.call D float cols c.2 c.1 with
    | error e =>
      rw [Except.map, MemoryTestWorldStore.leaseEvents_error, List.append_nil]
      exact hl
    | ok r => exact of_yields (call_records c.1) hr l hl

theorem fences_empty : Fences {} attemptId [] := Holds.start _ _

end PostgresTestWorldStore

/-- Over any interleaving of calls, by any workers, both stores keep the leases of every attempt
fenced: the generations handed out increase, at most one completion or failure is accepted, and
only under the latest claim while no reconciliation has queued the attempt again. -/
theorem leases_fenced (D : Digests) (float : ℚ → String) (l : List (Call × Time))
    (hfresh : MemoryTestWorldStore.AllFresh D float {} l) (attemptId : String) :
    Fenced (MemoryTestWorldStore.record D float attemptId {} l) ∧
      ∀ cols, Fenced (PostgresTestWorldStore.record D float cols attemptId {} l) := by
  refine ⟨?_, fun cols => ?_⟩
  · exact MemoryTestWorldStore.record_fenced MemoryTestWorldStore.lawful_empty l hfresh
      MemoryTestWorldStore.fences_empty
  · exact PostgresTestWorldStore.record_fenced l PostgresTestWorldStore.fences_empty

theorem leases_fenced_claimed :
    Fenced (MemoryTestWorldStore.record zeroDigests (fun _ => "0") claimedLease.attemptId {} claimedHistory) ∧
      ∀ cols, Fenced (PostgresTestWorldStore.record zeroDigests (fun _ => "0") cols claimedLease.attemptId {}
        claimedHistory) :=
  leases_fenced zeroDigests (fun _ => "0") claimedHistory claimedHistory_fresh claimedLease.attemptId

end LilTweak.Worlds
