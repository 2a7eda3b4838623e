import LilTweak.Worlds.Constraints

/-!
# The two stores side by side

The in-memory store and the tables, driven by the same calls at the same times.
`Agrees` is the relation every call keeps on which no held lease is released, an
attempt is failed with the current expiry of its lease, and the database holds the
values of the call as they are.
-/

namespace LilTweak.Worlds

open LilTweak.Lib LilTweak.Core LilTweak.Store PostgresTestWorldStore

/-! ## Library facts -/

section Lists

variable {α β : Type}

theorem find?_map_eq (p : α → Bool) (f : α → β) (l : List α) :
    (l.find? p).map f = (l.filterMap fun a => if p a then some (f a) else none).head? := by
  rw [filterMap_ite, List.head?_map, List.head?_filter]

/-- An item that goes before nothing is inserted at the end. -/
theorem orderedInsert_last (r : α → α → Prop) [DecidableRel r] {a : α} {l : List α}
    (h : ∀ b ∈ l, ¬r a b) : l.orderedInsert r a = l ++ [a] := by
  induction l with
  | nil => rfl
  | cons b l ih =>
    rw [List.orderedInsert_cons, if_neg (h b List.mem_cons_self),
      ih fun c hc => h c (List.mem_cons_of_mem b hc), List.cons_append]

end Lists

/-! ## The relation -/

/-- The lease a row holds. -/
def AttemptRow.lease (id : String) (r : AttemptRow) : Option TestWorldLease :=
  match r.leaseOwner, r.leaseExpiresAt with
  | some workerId, some expiresAt => some
      { attemptId := id, worldId := r.worldId, ownerId := r.ownerId, workerId
        generation := r.leaseGeneration, expiresAt }
  | _, _ => none

/-- The ids of a world's attempts, in the order of their rows. -/
def PostgresTestWorldStore.idsOf (T : PostgresTestWorldStore) (worldId : String) : List String :=
  T.attempts.entries.filterMap fun e => if e.2.worldId == worldId then some e.1 else none

/-- The two stores hold the same worlds, attempts, keys, leases and generations. -/
structure Agrees (cols : Columns) (s : MemoryTestWorldStore) (T : PostgresTestWorldStore) : Prop where
  consistent : Consistent cols T
  worlds : s.worlds = T.worlds.mapWithKey WorldRow.world
  attempts : s.attempts = T.attempts.mapWithKey AttemptRow.attempt
  ids : ∀ w, s.attemptIds.get? w = (T.worlds.get? w).map fun _ => T.idsOf w
  worldKeys : ∀ owner key, s.worldIdempotency.get? (owner, key) =
    (T.worldUnder owner key).map fun e => (e.1, e.2.requestHash)
  attemptKeys : ∀ owner key, s.attemptIdempotency.get? (owner, key) =
    (T.attemptUnder owner key).map fun e => (e.2.worldId, e.1, e.2.attemptMode)
  claims : ∀ a, s.claims.get? a = (T.attempts.get? a).bind (AttemptRow.lease a)
  generations : ∀ a, (s.generations.get? a).getD 0 =
    ((T.attempts.get? a).map AttemptRow.leaseGeneration).getD 0

variable {D : Digests} {float : ℚ → String} {cols : Columns} {s : MemoryTestWorldStore}
  {T : PostgresTestWorldStore}

theorem agrees_empty : Agrees cols {} {} :=
  ⟨consistent_empty, rfl, rfl, fun _ => rfl, fun _ _ => rfl, fun _ _ => rfl, fun _ => rfl, fun _ => rfl⟩

namespace Agrees

theorem world_get? (h : Agrees cols s T) (id : String) :
    s.worlds.get? id = (T.worlds.get? id).map (WorldRow.world id) := by
  rw [h.worlds, Dict.get?_mapWithKey]

theorem attempt_get? (h : Agrees cols s T) (id : String) :
    s.attempts.get? id = (T.attempts.get? id).map (AttemptRow.attempt id) := by
  rw [h.attempts, Dict.get?_mapWithKey]

/-- Overwriting a row and what the dicts hold of it. -/
theorem setAttempt (h : Agrees cols s T) {id : String} {old new : AttemptRow}
    (hold : T.attempts.get? id = some old) (same : old.SameAttempt new)
    (hcons : Consistent cols { T with attempts := T.attempts.set id new })
    {claims : Dict String TestWorldLease} {generations : Dict String Nat}
    (hclaims : ∀ a, claims.get? a = if a = id then new.lease id else s.claims.get? a)
    (hgen : ∀ a, (generations.get? a).getD 0 =
      if a = id then new.leaseGeneration else (s.generations.get? a).getD 0) :
    Agrees cols { s with attempts := s.attempts.set id (new.attempt id), claims, generations }
      { T with attempts := T.attempts.set id new } where
  consistent := hcons
  worlds := h.worlds
  attempts := by
    show s.attempts.set id (new.attempt id) = _
    rw [h.attempts, Dict.set_mapWithKey]
  ids := by
    intro w
    rw [h.ids]
    congr 1
    funext _
    exact (Dict.filterMap_set_present hold (by simp only [same.worldId])).symm
  worldKeys := h.worldKeys
  attemptKeys := by
    intro owner key
    rw [h.attemptKeys]
    simp only [attemptUnder, find?_map_eq]
    rw [Dict.filterMap_set_present hold]
    simp only [same.ownerId, same.attemptIdempotencyKey, same.worldId, same.attemptMode]
  claims := by
    intro a
    show claims.get? a = _
    rw [hclaims, Dict.get?_set]
    split
    · next ha => rw [ha]; rfl
    · exact h.claims a
  generations := by
    intro a
    show (generations.get? a).getD 0 = _
    rw [hgen, Dict.get?_set]
    split
    · rfl
    · exact h.generations a

/-- Overwriting the status of a world. -/
theorem setWorld (h : Agrees cols s T) {id : String} {row : WorldRow}
    (hrow : T.worlds.get? id = some row) (status : WorldStatus) (t : Time)
    (hcons : Consistent cols { T with worlds := T.worlds.set id { row with status, updatedAt := t } }) :
    Agrees cols (s.setStatus (row.world id) status t)
      { T with worlds := T.worlds.set id { row with status, updatedAt := t } } where
  consistent := hcons
  worlds := by
    show s.worlds.set id _ = _
    rw [h.worlds, ← Dict.set_mapWithKey]
    rfl
  attempts := h.attempts
  ids := by
    intro w
    show s.attemptIds.get? w = _
    rw [h.ids, Dict.get?_set]
    split
    · next hw => rw [hw, hrow]; rfl
    · rfl
  worldKeys := by
    intro owner key
    show s.worldIdempotency.get? (owner, key) = _
    rw [h.worldKeys]
    simp only [worldUnder, find?_map_eq]
    exact congrArg List.head? (Dict.filterMap_set_present hrow (by rfl)).symm
  attemptKeys := h.attemptKeys
  claims := h.claims
  generations := h.generations

/-- The world of a stored attempt, in both stores. -/
theorem parent (h : Agrees cols s T) {id : String} {r : AttemptRow} (hr : T.attempts.get? id = some r) :
    ∃ w, T.worlds.get? r.worldId = some w ∧ w.ownerId = r.ownerId ∧
      item s.worlds r.worldId = .ok (w.world r.worldId) := by
  obtain ⟨w, hw, ho, -⟩ := h.consistent.parent id r hr
  refine ⟨w, hw, ho, ?_⟩
  simp only [item, h.world_get?, hw, Option.map_some]

/-- A claim is held exactly of the rows whose lease has not run out. -/
theorem claimable_iff (h : Agrees cols s T) {id : String} {r : AttemptRow}
    (hr : T.attempts.get? id = some r) (t : Time) : s.claimable id t = expired r t := by
  have hs := h.consistent.sound id r hr
  simp only [MemoryTestWorldStore.claimable, h.claims, hr, Option.bind_some, AttemptRow.lease, expired]
  cases ho : r.leaseOwner with
  | none =>
    have he : r.leaseExpiresAt = none := by simpa [ho] using hs.expires
    simp [he]
  | some w =>
    cases he : r.leaseExpiresAt with
    | none =>
      have hboth := hs.expires
      simp [ho, he] at hboth
    | some e => simp

end Agrees

/-! ## Statements -/

/-- A running row holds a lease and no other row does. -/
theorem AttemptRow.Sound.lease_cases {r : AttemptRow} (h : r.Sound cols) (id : String) :
    (r.status ≠ .running ∧ r.leaseOwner = none ∧ r.lease id = none) ∨
    ∃ w e, r.status = .running ∧ r.leaseOwner = some w ∧ r.leaseExpiresAt = some e ∧
      r.lease id = some { attemptId := id, worldId := r.worldId, ownerId := r.ownerId, workerId := w
                          generation := r.leaseGeneration, expiresAt := e } := by
  cases ho : r.leaseOwner with
  | none =>
    refine .inl ⟨fun hr => ?_, rfl, by simp [AttemptRow.lease, ho]⟩
    have := h.leased.mpr hr
    simp [ho] at this
  | some w =>
    have he := h.expires
    rw [ho, Option.isSome_some, Option.isSome_iff_exists] at he
    obtain ⟨e, he⟩ := he
    exact .inr ⟨w, e, h.leased.mp (by rw [ho]; rfl), rfl, he, by simp [AttemptRow.lease, ho, he]⟩

/-- The strings of the lease are ones the database holds. -/
def LeaseHeld (cols : Columns) (lease : TestWorldLease) : Prop :=
  cols.text lease.attemptId = some lease.attemptId ∧ cols.text lease.worldId = some lease.worldId ∧
    cols.text lease.ownerId = some lease.ownerId ∧ cols.text lease.workerId = some lease.workerId

theorem leaseColumns_ok {lease : TestWorldLease} (h : LeaseHeld cols lease) :
    leaseColumns cols lease = .ok lease := by
  obtain ⟨h1, h2, h3, h4⟩ := h
  simp only [leaseColumns, held_some h1, held_some h2, held_some h3, held_some h4]
  rfl

/-- What the two stores answer is the same, and they still agree. -/
def Same {α : Type} (cols : Columns) (a : α × MemoryTestWorldStore) (b : α × PostgresTestWorldStore) :
    Prop := a.1 = b.1 ∧ Agrees cols a.2 b.2

/-! ## Operations -/

theorem claimAttempt_agrees (h : Agrees cols s T) {attemptId workerId : String} {leaseSeconds : Int}
    {t : Time} (hid : cols.text attemptId = some attemptId) (hworker : cols.text workerId = some workerId)
    (he : cols.timestamptz (t + leaseSeconds) = some (t + leaseSeconds))
    (ht : cols.timestamptz t = some t) (hgen : ∀ row, T.attempts.get? attemptId = some row →
      bigint (row.leaseGeneration + 1) = some (row.leaseGeneration + 1)) :
    Together (Same cols) (s.claimAttempt attemptId workerId leaseSeconds t)
      (T.claimAttempt cols attemptId workerId leaseSeconds t) := by
  refine Together.ite Iff.rfl (fun _ => rfl) fun _ => ?_
  simp only [held_some hworker, held_some he, held_some ht, held_some hid, ok_bind, h.attempt_get?]
  cases hrow : T.attempts.get? attemptId with
  | none => exact ⟨rfl, h⟩
  | some row =>
    simp only [Option.map_some]
    have hs := h.consistent.sound _ row hrow
    have htest : (row.attempt attemptId).status ≠ .queued ∨ s.claimable attemptId t = false ↔
        row.status ≠ .queued ∨ expired row t = false := by
      rw [h.claimable_iff hrow]
      rfl
    refine Together.ite htest (fun _ => ⟨rfl, h⟩) fun hq => ?_
    have hqueued : row.status = .queued := not_not.mp (not_or.mp (mt htest.mpr hq)).1
    have hactive : row.status.active = true := by rw [hqueued]; rfl
    have hadm : (row.claimed workerId (t + leaseSeconds) t).Admitted attemptId :=
      (h.consistent.attempts _ row hrow).claimed hactive workerId
    have hcons := h.consistent.update hrow (row.sameAttempt_claimed workerId (t + leaseSeconds) t) hadm
      (hs.claimed hactive hworker)
    obtain ⟨w, hw, howner, hitem⟩ := h.parent hrow
    obtain ⟨hup, hcons'⟩ := updateStatus_ok hcons hw howner .running t
    have hg : (s.generations.get? attemptId).getD 0 = row.leaseGeneration := by
      rw [h.generations, hrow]
      rfl
    have hattempt : (row.claimed workerId (t + leaseSeconds) t).attempt attemptId =
        { row.attempt attemptId with status := .running, startedAt := some t } := by
      simp [AttemptRow.attempt, AttemptRow.claimed, hs.unstarted hqueued]
    have hclaims : ∀ a, (s.claims.set attemptId
        { attemptId, worldId := row.worldId, ownerId := row.ownerId, workerId
          generation := (row.leaseGeneration + 1 : Nat), expiresAt := t + leaseSeconds }).get? a =
        if a = attemptId then (row.claimed workerId (t + leaseSeconds) t).lease attemptId
        else s.claims.get? a := fun a => Dict.get?_set _ _ _ _
    have hgens : ∀ a, ((s.generations.set attemptId (row.leaseGeneration + 1)).get? a).getD 0 =
        if a = attemptId then (row.claimed workerId (t + leaseSeconds) t).leaseGeneration
        else (s.generations.get? a).getD 0 := by
      intro a
      rw [Dict.get?_set]
      split <;> rfl
    have hagree := (h.setAttempt hrow (row.sameAttempt_claimed workerId (t + leaseSeconds) t) hcons
      hclaims hgens).setWorld hw .running t hcons'
    rw [hattempt] at hagree
    rw [show item s.worlds (row.attempt attemptId).worldId = _ from hitem, hgen row hrow, hg,
      putAttempt_ok hadm]
    simp only [ok_bind, held, hup]
    exact ⟨by simp [AttemptRow.attempt], hagree⟩

theorem renewAttempt_agrees (h : Agrees cols s T) {lease : TestWorldLease} {leaseSeconds : Int} {t : Time}
    (hl : LeaseHeld cols lease) (he : cols.timestamptz (t + leaseSeconds) = some (t + leaseSeconds))
    (ht : cols.timestamptz t = some t) :
    Together (Same cols) (s.renewAttempt lease leaseSeconds t)
      (T.renewAttempt cols lease leaseSeconds t) := by
  refine Together.ite Iff.rfl (fun _ => rfl) fun _ => ?_
  simp only [held_some he, held_some ht, leaseColumns_ok hl, ok_bind, h.claims]
  cases hrow : T.attempts.get? lease.attemptId with
  | none => rfl
  | some row =>
    have hs := h.consistent.sound _ row hrow
    rcases hs.lease_cases lease.attemptId with hfree | hheld
    · obtain ⟨-, howner, hnone⟩ := hfree
      simp [hnone, leasedTo, howner, Together]
    · obtain ⟨w, e, hrun, howner, hexp, hsome⟩ := hheld
      simp only [Option.bind_some, hsome]
      refine Together.ite ?_ (fun _ => rfl) fun hok => ?_
      · simp only [sameLease, leasedTo, howner, hrun, expired, hexp, Bool.and_eq_false_iff,
          beq_eq_false_iff_ne, ne_eq, Option.some.injEq, not_true_eq_false, false_or, Option.all_some,
          decide_eq_true_eq]
        tauto
      have hsame : w = lease.workerId ∧ (row.leaseGeneration : Int) = lease.generation ∧
          row.ownerId = lease.ownerId ∧ row.worldId = lease.worldId := by
        simpa [sameLease, and_assoc] using (not_or.mp hok).1
      obtain ⟨rfl, hgen, ho, hw⟩ := hsame
      have hadm : ({ row with leaseExpiresAt := some (t + leaseSeconds) } : AttemptRow).Admitted
          lease.attemptId := (h.consistent.attempts _ row hrow).renewed (hs.leased.mpr hrun)
      have hcons := h.consistent.update hrow (row.sameAttempt_renewed (t + leaseSeconds)) hadm
        (hs.renewed hrun)
      have hclaims : ∀ a, (s.claims.set lease.attemptId
          { attemptId := lease.attemptId, worldId := row.worldId, ownerId := row.ownerId
            workerId := lease.workerId, generation := row.leaseGeneration
            expiresAt := t + leaseSeconds }).get? a = if a = lease.attemptId then
            AttemptRow.lease lease.attemptId { row with leaseExpiresAt := some (t + leaseSeconds) }
          else s.claims.get? a := by
        intro a
        rw [Dict.get?_set]
        simp [AttemptRow.lease, howner]
      have hgens : ∀ a, (s.generations.get? a).getD 0 = if a = lease.attemptId then
          row.leaseGeneration else (s.generations.get? a).getD 0 := by
        intro a
        split
        · next ha => rw [h.generations, ha, hrow]; rfl
        · rfl
      have hagree := h.setAttempt hrow (row.sameAttempt_renewed (t + leaseSeconds)) hcons hclaims hgens
      have hattempts : s.attempts.set lease.attemptId (row.attempt lease.attemptId) = s.attempts :=
        Dict.set_get? _ (by rw [h.attempt_get?, hrow]; rfl)
      rw [show AttemptRow.attempt lease.attemptId { row with leaseExpiresAt := some (t + leaseSeconds) } =
        row.attempt lease.attemptId from rfl, hattempts] at hagree
      rw [putAttempt_ok hadm]
      refine ⟨?_, hagree⟩
      simp [hgen, ho, hw]

theorem releaseAttempt_agrees (h : Agrees cols s T) {lease : TestWorldLease}
    (ha : cols.text lease.attemptId = some lease.attemptId)
    (ho : cols.text lease.ownerId = some lease.ownerId)
    (hw : cols.text lease.workerId = some lease.workerId) (hfree : ¬T.Leases lease) :
    Together (Same cols) (s.releaseAttempt lease) (T.releaseAttempt cols lease) := by
  have hmemory : s.claims.get? lease.attemptId ≠ some lease := by
    intro hc
    rw [h.claims, Option.bind_eq_some_iff] at hc
    obtain ⟨row, hrow, hl⟩ := hc
    refine hfree ⟨row, hrow, ?_⟩
    rcases (h.consistent.sound _ row hrow).lease_cases lease.attemptId with hn | hs
    · simp [hn.2.2] at hl
    · obtain ⟨w, e, -, howner, -, hsome⟩ := hs
      have heq := Option.some.inj (hsome.symm.trans hl)
      have h1 := congrArg TestWorldLease.ownerId heq
      have h2 := congrArg TestWorldLease.workerId heq
      have h3 := congrArg TestWorldLease.generation heq
      dsimp only at h1 h2 h3
      simp [leasedTo, howner, h1, h2, h3]
  rw [MemoryTestWorldStore.releaseAttempt, if_neg hmemory]
  simp only [releaseAttempt, held_some ha, held_some ho, held_some hw, ok_bind]
  cases hrow : T.attempts.get? lease.attemptId with
  | none => exact ⟨rfl, h⟩
  | some row =>
    have hto : leasedTo row lease = false := by
      by_contra hn
      exact hfree ⟨row, hrow, by simpa using hn⟩
    simp only [hto, if_true]
    exact ⟨rfl, h⟩

/-- The lease fits the holder of a running attempt in all but its expiry. -/
def PostgresTestWorldStore.Outdated (T : PostgresTestWorldStore) (lease : TestWorldLease) : Prop :=
  ∃ row, T.attempts.get? lease.attemptId = some row ∧ leasedTo row lease = true ∧
    row.worldId = lease.worldId ∧ row.leaseExpiresAt ≠ some lease.expiresAt

/-- Both stores let the holder of a lease end the same attempts, as long as what the
in-memory store asks of the claim and the attempt comes down to the same columns. -/
theorem leased_together (h : Agrees cols s T) (lease : TestWorldLease)
    {admits : TestWorldLease → TestWorldAttempt → Bool}
    (hadmits : ∀ row current, T.attempts.get? lease.attemptId = some row →
      row.lease lease.attemptId = some current →
      (admits current (row.attempt lease.attemptId) = true ↔
        leasedTo row lease = true ∧ row.worldId = lease.worldId ∧ row.status = .running)) :
    Together (fun a row => T.attempts.get? lease.attemptId = some row ∧
        a = row.attempt lease.attemptId ∧ row.worldId = lease.worldId ∧ row.ownerId = lease.ownerId ∧
        row.status = .running)
      (s.leasedAttempt lease admits) (T.leasedRow lease) := by
  rw [MemoryTestWorldStore.leasedAttempt, leasedRow, h.claims, h.attempt_get?]
  cases hrow : T.attempts.get? lease.attemptId with
  | none => rfl
  | some row =>
    rcases (h.consistent.sound _ row hrow).lease_cases lease.attemptId with hfree | hheld
    · obtain ⟨hrun, -, hnone⟩ := hfree
      simp only [Option.bind_some, hnone, hrun, and_false, if_false]
      rfl
    · obtain ⟨w, e, hrun, howner, -, hsome⟩ := hheld
      simp only [Option.bind_some, Option.map_some, hsome]
      refine Together.ite (hadmits row _ hrow hsome) (fun ha => ?_) fun _ => rfl
      have hb := (hadmits row _ hrow hsome).mp ha
      have ho : row.ownerId = lease.ownerId := by
        have := hb.1
        simp only [leasedTo, Bool.and_eq_true, beq_iff_eq] at this
        exact this.1.1
      exact ⟨rfl, rfl, hb.2.1, ho, hb.2.2⟩

/-- The end of an attempt: its row, its claim and its world are written together. -/
theorem ended (h : Agrees cols s T) {lease : TestWorldLease} {row new : AttemptRow}
    (hrow : T.attempts.get? lease.attemptId = some row) (same : row.SameAttempt new)
    (hadm : new.Admitted lease.attemptId) (hsound : new.Sound cols) (hlease : new.leaseOwner = none)
    (hgen : new.leaseGeneration = row.leaseGeneration)
    (howner : row.ownerId = lease.ownerId) {w : WorldRow} (hw : T.worlds.get? lease.worldId = some w)
    (hwo : w.ownerId = lease.ownerId) (status : WorldStatus) (t : Time) :
    ∃ U, (do
        let U ← T.putAttempt lease.attemptId new
        let U ← U.updateStatus lease.worldId lease.ownerId status t
        let attempt ← U.fetchAttempt lease.attemptId lease.ownerId
        .ok (attempt, U)) = .ok (new.attempt lease.attemptId, U) ∧
      Agrees cols (({ s with attempts := s.attempts.set lease.attemptId (new.attempt lease.attemptId)
                             claims := s.claims.erase lease.attemptId } :
          MemoryTestWorldStore).setStatus (w.world lease.worldId) status t) U := by
  have hcons := h.consistent.update hrow same hadm hsound
  obtain ⟨hup, hcons'⟩ := updateStatus_ok hcons hw hwo status t
  have hclaims : ∀ a, (s.claims.erase lease.attemptId).get? a =
      if a = lease.attemptId then new.lease lease.attemptId else s.claims.get? a := by
    intro a
    rw [Dict.get?_erase]
    simp [AttemptRow.lease, hlease]
  have hgens : ∀ a, (s.generations.get? a).getD 0 = if a = lease.attemptId then
      new.leaseGeneration else (s.generations.get? a).getD 0 := by
    intro a
    split
    · next ha => rw [h.generations, ha, hrow, hgen]; rfl
    · rfl
  refine ⟨_, ?_, (h.setAttempt hrow same hcons hclaims hgens).setWorld hw status t hcons'⟩
  rw [putAttempt_ok hadm, ok_bind, hup, ok_bind,
    fetchAttempt_ok (Dict.get?_set_self _ _ _) (same.ownerId.trans howner), ok_bind]

theorem completeAttempt_agrees (h : Agrees cols s T) {lease : TestWorldLease} {c : CompleteCall}
    {t : Time} (hl : LeaseHeld cols lease) (ht : cols.timestamptz t = some t)
    (hr : ∀ r, c.validate float = .ok r → resultColumns cols r = .ok r) :
    Together (Same cols) (s.completeAttempt float lease c t)
      (T.completeAttempt float cols lease c t) := by
  rw [MemoryTestWorldStore.completeAttempt, completeAttempt]
  cases hval : c.validate float with
  | error e => rfl
  | ok result =>
    have hstore : result.Storable := by
      have hv := c.validate_yields float
      rw [hval] at hv
      exact hv
    rw [ok_bind, ok_bind, leaseColumns_ok hl, ok_bind]
    refine (leased_together h lease fun row current hrow hsome => ?_).bind fun a row hb => ?_
    · rcases (h.consistent.sound _ row hrow).lease_cases lease.attemptId with hfree | hheld
      · simp [hfree.2.2] at hsome
      · obtain ⟨w, e, hrun, howner, -, hs⟩ := hheld
        obtain rfl := Option.some.inj (hs.symm.trans hsome)
        simp only [sameLease, leasedTo, howner, hrun, AttemptRow.attempt, Bool.and_eq_true, beq_iff_eq,
          Option.some.injEq]
        tauto
    obtain ⟨hrow, rfl, hworld, howner, hrun⟩ := hb
    obtain ⟨w, hw, hwo, hitem⟩ := h.parent hrow
    rw [hworld] at hw hitem
    have hwo' := hwo.trans howner
    have hitem' : item s.worlds (row.attempt lease.attemptId).worldId = .ok (w.world lease.worldId) := by
      show item s.worlds row.worldId = _
      rw [hworld, hitem]
    rw [hitem', fetchWorld_ok hw hwo', ok_bind, ok_bind]
    refine Together.ite Iff.rfl (fun _ => rfl) fun _ => ?_
    refine Together.ite Iff.rfl (fun _ => rfl) fun hproof => ?_
    rw [hr result hval, ok_bind, held_some ht, ok_bind]
    have hs := h.consistent.sound _ row hrow
    have hcount : result.passed = true → result.feedback.length = row.expectedCheckCount := by
      intro hp
      obtain ⟨w', hw', -, hexp⟩ := h.consistent.parent _ row hrow
      obtain rfl := Option.some.inj (hw'.symm.trans (hworld ▸ hw))
      have hfull := not_and.mp hproof hp
      simp only [hasCompletePassProof, Bool.not_eq_false, Bool.and_eq_true, decide_eq_true_eq] at hfull
      rw [hexp, hfull.1]
      rfl
    have hadm : (row.judged result t).Admitted lease.attemptId :=
      (h.consistent.attempts _ row hrow).judged hstore hcount
    obtain ⟨U, hU, hagree⟩ := ended h hrow (row.sameAttempt_judged result t) hadm
      (hs.judged result) rfl rfl howner hw hwo'
      (judgedStatus result.passed row.attemptNumber w.maxAttempts) t
    rw [show (row.attempt lease.attemptId).number = row.attemptNumber from rfl]
    erw [hU]
    exact ⟨rfl, hagree⟩

theorem failAttempt_agrees (h : Agrees cols s T) {lease : TestWorldLease} {c : FailCall} {t : Time}
    (hl : LeaseHeld cols lease) (ht : cols.timestamptz t = some t)
    (hr : ∀ e, c.validate float = .ok e →
      cols.jsonbFeedback e.feedback = some e.feedback ∧ cols.text e.summary = some e.summary)
    (hcurrent : ¬T.Outdated lease) :
    Together (Same cols) (s.failAttempt float lease c t) (T.failAttempt float cols lease c t) := by
  rw [MemoryTestWorldStore.failAttempt, failAttempt]
  cases hval : c.validate float with
  | error e => rfl
  | ok error =>
    have herror := c.validate_yields float
    rw [hval] at herror
    rw [ok_bind, ok_bind, leaseColumns_ok hl, ok_bind]
    refine (leased_together h lease fun row current hrow hsome => ?_).bind fun a row hb => ?_
    · rcases (h.consistent.sound _ row hrow).lease_cases lease.attemptId with hfree | hheld
      · simp [hfree.2.2] at hsome
      · obtain ⟨w, e, hrun, howner, hexp, hs⟩ := hheld
        obtain rfl := Option.some.inj (hs.symm.trans hsome)
        have hexpiry : leasedTo row lease = true → row.worldId = lease.worldId → e = lease.expiresAt := by
          intro hto hw
          by_contra hne
          exact hcurrent ⟨row, hrow, hto, hw, by simpa [hexp] using hne⟩
        constructor
        · intro ha
          simp only [AttemptRow.attempt, Bool.and_eq_true, beq_iff_eq] at ha
          obtain ⟨⟨⟨hst, hw⟩, ho⟩, heq⟩ := ha
          have h2 := congrArg TestWorldLease.workerId heq
          have h3 := congrArg TestWorldLease.generation heq
          dsimp only at h2 h3
          exact ⟨by simp [leasedTo, howner, ho, h2, h3], hw, hst⟩
        · intro hb
          obtain ⟨hto, hw, hst⟩ := hb
          have he := hexpiry hto hw
          simp only [leasedTo, howner, Bool.and_eq_true, beq_iff_eq, Option.some.injEq] at hto
          obtain ⟨⟨ho, hwork⟩, hgen⟩ := hto
          simp [AttemptRow.attempt, hst, hw, ho, hwork, hgen, he]
    obtain ⟨hrow, rfl, hworld, howner, hrun⟩ := hb
    obtain ⟨w, hw, hwo, hitem⟩ := h.parent hrow
    rw [hworld] at hw
    have hwo' := hwo.trans howner
    have hitem' : item s.worlds (row.attempt lease.attemptId).worldId = .ok (w.world lease.worldId) := by
      rw [← hworld]
      exact hitem
    obtain ⟨hfeedback, hsummary⟩ := hr error hval
    rw [fetchWorld_ok hw hwo', ok_bind, held_some hfeedback, ok_bind, held_some hsummary, ok_bind,
      held_some ht, ok_bind]
    have hs := h.consistent.sound _ row hrow
    have hadm : (row.errored error t).Admitted lease.attemptId :=
      (h.consistent.attempts _ row hrow).errored (hs.unjudged (by rw [hrun]; rfl)) herror.1 herror.2
    obtain ⟨U, hU, hagree⟩ := ended h hrow (row.sameAttempt_errored error t) hadm (hs.errored error)
      rfl rfl howner hw hwo' (erroredStatus c.blocked row.attemptNumber w.maxAttempts) t
    dsimp only
    rw [hitem', ok_bind]
    erw [hU]
    exact ⟨rfl, hagree⟩

/-! ## New worlds and new attempts -/

theorem not_contains {κ α : Type} [DecidableEq κ] {d : Dict κ α} {k : κ} (h : d.get? k = none) :
    d.contains k = false := by
  simp [Dict.contains, h]

/-- A world that was just inserted, and what the dicts hold of it. -/
theorem Agrees.addWorld (h : Agrees cols s T) {id key : String} {row : WorldRow}
    (hnew : T.worlds.get? id = none) (hkey : row.createIdempotencyKey = key)
    (hunder : T.worldUnder row.ownerId key = none)
    (hcons : Consistent cols { T with worlds := T.worlds.set id row }) :
    Agrees cols { s with
        worlds := s.worlds.set id (row.world id)
        attemptIds := s.attemptIds.set id []
        worldIdempotency := s.worldIdempotency.set (row.ownerId, key) (id, row.requestHash) }
      { T with worlds := T.worlds.set id row } where
  consistent := hcons
  worlds := by
    show s.worlds.set id (row.world id) = _
    rw [h.worlds, Dict.set_mapWithKey]
  attempts := h.attempts
  ids := by
    intro w
    show (s.attemptIds.set id []).get? w = _
    rw [Dict.get?_set, Dict.get?_set]
    split
    · next hw =>
      have hnone : T.idsOf w = [] := by
        rw [idsOf, List.filterMap_eq_nil_iff]
        intro e he
        obtain ⟨p, hp, -⟩ := h.consistent.parent e.1 e.2 ((Dict.mem_entries_iff _ _ _).mp he)
        have hne : e.2.worldId ≠ w := by
          intro heq
          rw [heq, hw, hnew] at hp
          cases hp
        simp [hne]
      exact congrArg some hnone.symm
    · exact h.ids w
  worldKeys := by
    intro o k
    show (s.worldIdempotency.set (row.ownerId, key) (id, row.requestHash)).get? (o, k) = _
    rw [Dict.get?_set]
    simp only [worldUnder, Dict.entries_set_absent hnew, List.find?_append, Option.map_or]
    have hold := h.worldKeys o k
    split
    · next hk =>
      obtain ⟨rfl, rfl⟩ := Prod.mk.inj hk
      rw [worldUnder] at hunder
      simp [hunder, hkey]
    · next hk =>
      have hno : (row.ownerId == o && row.createIdempotencyKey == k) = false := by
        by_contra hn
        simp only [Bool.not_eq_false, Bool.and_eq_true, beq_iff_eq] at hn
        exact hk (by rw [← hn.1, ← hn.2, hkey])
      rw [hold, worldUnder]
      simp [hno]
  attemptKeys := h.attemptKeys
  claims := h.claims
  generations := h.generations

theorem createWorld_agrees (h : Agrees cols s T) {ownerId key : String} {d : WorldDefinition}
    {uuid : Uuid} {t : Time} (ho : cols.text ownerId = some ownerId) (hk : cols.text key = some key)
    (hn : cols.text (strip d.name) = some (strip d.name))
    (hobj : cols.text (strip d.objective) = some (strip d.objective))
    (hurl : cols.text d.repositoryUrl = some d.repositoryUrl)
    (hchecks : cols.jsonbChecks d.checks = some d.checks)
    (hid : cols.text ("world:" ++ uuid.hex) = some ("world:" ++ uuid.hex))
    (hnew : T.worlds.get? ("world:" ++ uuid.hex) = none) :
    Together (Same cols) (s.createWorld D ownerId key d uuid t)
      (T.createWorld D cols ownerId key d uuid t) := by
  refine Together.ite Iff.rfl (fun _ => rfl) fun hadm => ?_
  have hadm : definitionAdmits ownerId key d = true := by simpa using hadm
  simp only [held_some ho, held_some hk, ok_bind, h.worldKeys]
  cases hunder : T.worldUnder ownerId key with
  | some found =>
    obtain ⟨worldId, existing⟩ := found
    simp only [Option.map_some]
    refine Together.ite Iff.rfl (fun _ => rfl) fun _ => ?_
    have hfound := List.find?_some hunder
    simp only [Bool.and_eq_true, beq_iff_eq] at hfound
    have hrow := (Dict.mem_entries_iff T.worlds worldId existing).mp (List.mem_of_find?_eq_some hunder)
    rw [fetchWorld_ok hrow hfound.1]
    simp only [item, h.world_get?, hrow, Option.map_some]
    exact ⟨rfl, h⟩
  | none =>
    have hrow := newWorld_admitted (D := D) hadm uuid (rfl : d.checks.length = _) ownerId t
    have hcons := h.consistent.setWorld hrow fun old hold => by simp [hnew] at hold
    simp only [Option.map_none, held_some hn, held_some hobj, held_some hurl,
      held_some hchecks, held_some hid, ok_bind]
    rw [insertWorld_eq hrow hunder, not_contains hnew]
    simp only [Bool.false_eq_true, if_false, ok_bind, fetchWorld, Dict.get?_set_self, if_true]
    exact ⟨rfl, h.addWorld hnew rfl hunder hcons⟩

/-! Rows in the order of their numbers. -/

/-- Rows numbered from `k` on, sorted downwards, are the rows in reverse. -/
theorem insertionSort_numberDown : ∀ (l : List (String × AttemptRow)) (k : Nat),
    l.map (fun e => e.2.attemptNumber) = List.range' k l.length →
    l.insertionSort numberDown = l.reverse
  | [], _, _ => rfl
  | e :: l, k, h => by
    simp only [List.map_cons, List.length_cons, List.range'_succ, List.cons.injEq] at h
    rw [List.insertionSort_cons, insertionSort_numberDown l (k + 1) h.2, List.reverse_cons]
    refine orderedInsert_last _ fun b hb => ?_
    have hin := List.mem_map_of_mem (f := fun e => e.2.attemptNumber) (List.mem_reverse.mp hb)
    rw [h.2, List.mem_range'_1] at hin
    simp only [numberDown, h.1]
    omega

/-- Rows numbered from `k` on are sorted upwards. -/
theorem insertionSort_numberUp : ∀ (l : List (String × AttemptRow)) (k : Nat),
    l.map (fun e => e.2.attemptNumber) = List.range' k l.length → l.insertionSort numberUp = l
  | [], _, _ => rfl
  | e :: l, k, h => by
    simp only [List.map_cons, List.length_cons, List.range'_succ, List.cons.injEq] at h
    rw [List.insertionSort_cons, insertionSort_numberUp l (k + 1) h.2]
    cases l with
    | nil => rfl
    | cons b l =>
      have hb := congrArg List.head? h.2
      simp only [List.map_cons, List.head?_cons, List.length_cons, List.range'_succ,
        Option.some.injEq] at hb
      rw [List.orderedInsert_cons, if_pos]
      simp only [numberUp, h.1, hb]
      omega

namespace Agrees

/-- The rows of a world under its owner are all its rows. -/
theorem worldRows_eq (h : Agrees cols s T) {worldId ownerId : String} {w : WorldRow}
    (hw : T.worlds.get? worldId = some w) (howner : w.ownerId = ownerId) :
    T.worldRows worldId ownerId = T.attempts.entries.filter fun e => e.2.worldId == worldId := by
  refine List.filter_congr fun e he => ?_
  obtain ⟨p, hp, hpo, -⟩ := h.consistent.parent e.1 e.2 ((Dict.mem_entries_iff _ _ _).mp he)
  by_cases hid : e.2.worldId = worldId
  · have hpw : p = w := Option.some.inj (hp.symm.trans (hid ▸ hw))
    simp [hid, ← hpo, hpw, howner]
  · simp [hid]

/-- The ids of a world's rows. -/
theorem idsOf_eq (h : Agrees cols s T) {worldId ownerId : String} {w : WorldRow}
    (hw : T.worlds.get? worldId = some w) (howner : w.ownerId = ownerId) :
    T.idsOf worldId = (T.worldRows worldId ownerId).map Prod.fst := by
  rw [h.worldRows_eq hw howner, idsOf, filterMap_ite]

/-- The attempts the dict lists for a world are its rows. -/
theorem worldAttempts_eq (h : Agrees cols s T) {worldId ownerId : String} {w : WorldRow}
    (hw : T.worlds.get? worldId = some w) (howner : w.ownerId = ownerId) :
    s.worldAttempts worldId = .ok ((T.worldRows worldId ownerId).map fun e => e.2.attempt e.1) := by
  have hall : ∀ l : List (String × AttemptRow), (∀ e ∈ l, T.attempts.get? e.1 = some e.2) →
      (l.map Prod.fst).mapM (item s.attempts) = .ok (l.map fun e => e.2.attempt e.1) := by
    intro l
    induction l with
    | nil => exact fun _ => rfl
    | cons e l ih =>
      intro hl
      have he := hl e List.mem_cons_self
      rw [List.map_cons, List.mapM_cons, ih fun b hb => hl b (List.mem_cons_of_mem e hb)]
      simp only [item, h.attempt_get?, he, Option.map_some]
      rfl
  rw [MemoryTestWorldStore.worldAttempts, item, h.ids, hw, Option.map_some, ok_bind,
    h.idsOf_eq hw howner]
  refine hall _ fun e he => ?_
  exact (Dict.mem_entries_iff _ _ _).mp (List.mem_of_mem_filter he)

/-- An attempt that was just inserted, and what the dicts hold of it. -/
theorem addAttempt (h : Agrees cols s T) {id key : String} {row : AttemptRow} {w : WorldRow}
    (hnew : T.attempts.get? id = none) (hkey : row.attemptIdempotencyKey = key)
    (hunder : T.attemptUnder row.ownerId key = none) (hw : T.worlds.get? row.worldId = some w)
    (hlease : row.leaseOwner = none) (hgen : row.leaseGeneration = 0)
    (hcons : Consistent cols { T with attempts := T.attempts.set id row }) :
    Agrees cols { s with
        attempts := s.attempts.set id (row.attempt id)
        attemptIds := s.attemptIds.set row.worldId (T.idsOf row.worldId ++ [id])
        attemptIdempotency := s.attemptIdempotency.set (row.ownerId, key)
          (row.worldId, id, row.attemptMode) }
      { T with attempts := T.attempts.set id row } where
  consistent := hcons
  worlds := h.worlds
  attempts := by
    show s.attempts.set id (row.attempt id) = _
    rw [h.attempts, Dict.set_mapWithKey]
  ids := by
    intro worldId
    show (s.attemptIds.set row.worldId (T.idsOf row.worldId ++ [id])).get? worldId = _
    rw [Dict.get?_set]
    simp only [idsOf, Dict.entries_set_absent hnew, List.filterMap_append]
    split
    · next heq =>
      subst heq
      simp [hw]
    · next hne =>
      rw [h.ids]
      simp [Ne.symm hne, idsOf]
  worldKeys := h.worldKeys
  attemptKeys := by
    intro o k
    show (s.attemptIdempotency.set (row.ownerId, key) (row.worldId, id, row.attemptMode)).get? (o, k) = _
    rw [Dict.get?_set]
    simp only [attemptUnder, Dict.entries_set_absent hnew, List.find?_append, Option.map_or]
    have hold := h.attemptKeys o k
    split
    · next hk =>
      obtain ⟨rfl, rfl⟩ := Prod.mk.inj hk
      rw [attemptUnder] at hunder
      simp [hunder, hkey]
    · next hk =>
      have hno : (row.ownerId == o && row.attemptIdempotencyKey == k) = false := by
        by_contra hn
        simp only [Bool.not_eq_false, Bool.and_eq_true, beq_iff_eq] at hn
        exact hk (by rw [← hn.1, ← hn.2, hkey])
      rw [hold, attemptUnder]
      simp [hno]
  claims := by
    intro a
    show s.claims.get? a = _
    rw [h.claims, Dict.get?_set]
    split
    · next ha => simp [ha, hnew, AttemptRow.lease, hlease]
    · rfl
  generations := by
    intro a
    show (s.generations.get? a).getD 0 = _
    rw [h.generations, Dict.get?_set]
    split
    · next ha => simp [ha, hnew, hgen]
    · rfl

end Agrees

theorem enqueueAttempt_agrees (h : Agrees cols s T) {worldId ownerId key mode : String} {uuid : Uuid}
    {t : Time} (hw : cols.text worldId = some worldId) (ho : cols.text ownerId = some ownerId)
    (hk : cols.text key = some key)
    (hid : cols.text ("attempt:" ++ uuid.hex) = some ("attempt:" ++ uuid.hex))
    (hnew : T.attempts.get? ("attempt:" ++ uuid.hex) = none) :
    Together (Same cols) (s.enqueueAttempt worldId ownerId key mode uuid t)
      (T.enqueueAttempt cols worldId ownerId key mode uuid t) := by
  refine Together.ite Iff.rfl (fun _ => rfl) fun hadm => ?_
  have hkey : keyAdmits key = true := by simpa using hadm
  cases AttemptMode.ofValue? mode with
  | none => rfl
  | some attemptMode =>
    simp only [held_some ho, held_some hk, ok_bind, h.attemptKeys]
    cases hunder : T.attemptUnder ownerId key with
    | some found =>
      obtain ⟨attemptId, existing⟩ := found
      simp only [Option.map_some]
      refine Together.ite Iff.rfl (fun _ => rfl) fun _ => ?_
      have hfound := List.find?_some hunder
      simp only [Bool.and_eq_true, beq_iff_eq] at hfound
      have hrow := (Dict.mem_entries_iff T.attempts attemptId existing).mp
        (List.mem_of_find?_eq_some hunder)
      rw [fetchAttempt_ok hrow hfound.1]
      simp only [item, h.attempt_get?, hrow, Option.map_some]
      exact ⟨rfl, h⟩
    | none =>
      simp only [Option.map_none, held_some hw, ok_bind, MemoryTestWorldStore.ownedWorld, h.world_get?,
        fetchWorld]
      cases hrow : T.worlds.get? worldId with
      | none => rfl
      | some row =>
        by_cases howner : row.ownerId = ownerId
        swap
        · have hf : ((some row).map (WorldRow.world worldId)).filter
              (fun world => world.ownerId == ownerId) = none := by
            simp [WorldRow.world, howner]
          rw [hf]
          simp only [if_neg howner]
          rfl
        have hf : ((some row).map (WorldRow.world worldId)).filter
            (fun world => world.ownerId == ownerId) = some (row.world worldId) := by
          simp [WorldRow.world, howner]
        rw [hf]
        simp only [if_pos howner, ok_bind]
        refine Together.ite Iff.rfl (fun _ => rfl) fun _ => ?_
        have hids : item s.attemptIds worldId = .ok (T.idsOf worldId) := by
          simp only [item, h.ids, hrow, Option.map_some]
        have hlen : (T.idsOf worldId).length = (T.worldRows worldId ownerId).length := by
          rw [h.idsOf_eq hrow howner, List.length_map]
        have hsort := insertionSort_numberDown _ 1 (h.consistent.numbered worldId ownerId)
        rw [hids, h.worldAttempts_eq hrow howner, ok_bind, ok_bind, hsort, List.any_reverse,
          List.any_map, List.length_reverse, hlen, List.head?_reverse]
        refine Together.ite Iff.rfl (fun _ => rfl) fun _ => ?_
        refine Together.ite Iff.rfl (fun _ => rfl) fun hfull => ?_
        have hroom : ((T.worldRows worldId ownerId).length : Int) < row.maxAttempts := not_le.mp hfull
        have hprev : (T.worldRows worldId ownerId).getLast?.map Prod.fst = (T.idsOf worldId).getLast? := by
          rw [h.idsOf_eq hrow howner, List.getLast?_map]
        have hadm := newAttempt_admitted hkey (h.consistent.worlds worldId row hrow) uuid
          ((T.worldRows worldId ownerId).length + 1) ⟨by omega, by omega⟩ ownerId attemptMode
          (T.idsOf worldId).getLast? t
        have hcons := h.consistent.append hnew hid hadm
          ⟨by simp, rfl, fun _ => rfl, fun _ => rfl, ho, by simp⟩ hrow howner rfl rfl
        have hagree := h.addAttempt hnew rfl hunder hrow rfl rfl hcons
        obtain ⟨hup, hcons'⟩ := updateStatus_ok hcons hrow howner .running t
        rw [held_some hid, ok_bind, hprev]
        erw [insertAttempt_eq h.consistent hadm hunder hrow howner rfl]
        rw [not_contains hnew]
        simp only [Bool.false_eq_true, if_false, ok_bind]
        erw [hup]
        simp only [ok_bind, fetchAttempt, Dict.get?_set_self, if_true]
        exact ⟨rfl, hagree.setWorld hrow .running t hcons'⟩

/-! ## Reconciliation -/

/-- The worlds after the one of a row was set running. -/
def touch (t : Time) (worlds : Dict String WorldRow) (e : String × AttemptRow) : Dict String WorldRow :=
  match worlds.get? e.2.worldId with
  | some w => worlds.set e.2.worldId { w with status := .running, updatedAt := t }
  | none => worlds

/-- The attempts after one row was queued again. -/
def putBack (attempts : Dict String AttemptRow) (e : String × AttemptRow) : Dict String AttemptRow :=
  attempts.set e.1 e.2.requeued

/-- The tables after one row was queued again and its world set running. -/
def requeue (t : Time) (U : PostgresTestWorldStore) (e : String × AttemptRow) : PostgresTestWorldStore :=
  ⟨touch t U.worlds e, putBack U.attempts e⟩

/-- A row that was not touched yet is queued again in both stores. -/
theorem requeue_agrees (h : Agrees cols s T) {e : String × AttemptRow} (t : Time)
    (hrow : T.attempts.get? e.1 = some e.2) (hrun : e.2.status = .running) :
    ∃ w, item s.worlds e.2.worldId = .ok w ∧
      Agrees cols (({ s with attempts := s.attempts.set e.1 (e.2.requeued.attempt e.1)
                             claims := s.claims.erase e.1 } : MemoryTestWorldStore).setStatus w .running t)
        (requeue t T e) := by
  have hactive : e.2.status.active = true := by rw [hrun]; rfl
  have hadm := (h.consistent.attempts _ _ hrow).requeued hactive
  have hcons := h.consistent.update hrow e.2.sameAttempt_requeued hadm
    ((h.consistent.sound _ _ hrow).requeued hactive)
  obtain ⟨w, hw, howner, hitem⟩ := h.parent hrow
  have hclaims : ∀ a, (s.claims.erase e.1).get? a =
      if a = e.1 then e.2.requeued.lease e.1 else s.claims.get? a := by
    intro a
    rw [Dict.get?_erase]
    simp [AttemptRow.lease, AttemptRow.requeued]
  have hgens : ∀ a, (s.generations.get? a).getD 0 = if a = e.1 then
      e.2.requeued.leaseGeneration else (s.generations.get? a).getD 0 := by
    intro a
    split
    · next ha => rw [h.generations, ha, hrow]; rfl
    · rfl
  have hagree := (h.setAttempt hrow e.2.sameAttempt_requeued hcons hclaims hgens).setWorld hw .running t
    (updateStatus_ok hcons hw howner .running t).2
  refine ⟨_, hitem, ?_⟩
  simp only [requeue, touch, putBack, hw]
  exact hagree

theorem requeue_attempts_ne {t : Time} {e : String × AttemptRow} {id : String} (h : id ≠ e.1) :
    (requeue t T e).attempts.get? id = T.attempts.get? id := Dict.get?_set_ne _ _ h

/-- The loop of the in-memory store over rows in order: it queues again the first rows, as
many as the limit leaves room for, that are running with an expired lease. -/
theorem reconcile_rows (limit : Nat) (t : Time) : ∀ (l : List (String × AttemptRow))
    (recovered : List TestWorldAttempt) (s : MemoryTestWorldStore) (T : PostgresTestWorldStore),
    Agrees cols s T → (l.map Prod.fst).Nodup → (∀ e ∈ l, T.attempts.get? e.1 = some e.2) →
    ∃ s', (l.map fun e => e.2.attempt e.1).foldlM
        (fun r attempt => MemoryTestWorldStore.reconcileAttempt limit t attempt r) (recovered, s) =
        .ok (recovered ++ ((l.filter fun e => e.2.status == .running && expired e.2 t).take
          (limit - recovered.length)).map (fun e => e.2.requeued.attempt e.1), s') ∧
      Agrees cols s' (((l.filter fun e => e.2.status == .running && expired e.2 t).take
        (limit - recovered.length)).foldl (requeue t) T)
  | [], recovered, s, T, h, _, _ => ⟨s, by simp; rfl, by simpa using h⟩
  | e :: l, recovered, s, T, h, hnodup, hrows => by
    obtain ⟨hfresh, hnodup'⟩ := List.nodup_cons.mp hnodup
    have hrow := hrows e List.mem_cons_self
    have hrest := fun b hb => hrows b (List.mem_cons_of_mem e hb)
    rw [List.map_cons, List.foldlM_cons]
    by_cases hroom : recovered.length < limit
    swap
    · have hskip : MemoryTestWorldStore.reconcileAttempt limit t (e.2.attempt e.1) (recovered, s) =
          .ok (recovered, s) := if_pos (.inl (by exact_mod_cast not_lt.mp hroom))
      obtain ⟨s', hs', hagree⟩ := reconcile_rows limit t l recovered s T h hnodup' hrest
      have hzero : limit - recovered.length = 0 := by omega
      rw [hskip, ok_bind, hs']
      rw [hzero] at hagree ⊢
      exact ⟨s', by simp, by simpa using hagree⟩
    by_cases hp : e.2.status = .running ∧ expired e.2 t = true
    · obtain ⟨hrun, hexp⟩ := hp
      obtain ⟨w, hitem, hagree⟩ := requeue_agrees h t hrow hrun
      have hstep : MemoryTestWorldStore.reconcileAttempt limit t (e.2.attempt e.1) (recovered, s) =
          .ok (recovered ++ [e.2.requeued.attempt e.1], ({ s with
            attempts := s.attempts.set e.1 (e.2.requeued.attempt e.1)
            claims := s.claims.erase e.1 } : MemoryTestWorldStore).setStatus w .running t) := by
        have hclaim : s.claimable (e.2.attempt e.1).id t = true := (h.claimable_iff hrow t).trans hexp
        have hgo : ¬((recovered.length : Int) ≥ limit ∨ (e.2.attempt e.1).status ≠ .running) := by
          rintro (hfull | hst)
          · exact absurd (by exact_mod_cast hfull) (not_le.mpr hroom)
          · exact hst hrun
        simp only [MemoryTestWorldStore.reconcileAttempt, if_neg hgo, hclaim, Bool.true_eq_false, if_false]
        rw [show item s.worlds (e.2.attempt e.1).worldId = .ok w from hitem]
        rfl
      have hrest' : ∀ b ∈ l, (requeue t T e).attempts.get? b.1 = some b.2 := by
        intro b hb
        rw [requeue_attempts_ne fun heq => hfresh (heq ▸ List.mem_map_of_mem hb)]
        exact hrest b hb
      obtain ⟨s', hs', hagree'⟩ := reconcile_rows limit t l _ _ _ hagree hnodup' hrest'
      have hcount : limit - recovered.length = limit - (recovered ++ [e.2.requeued.attempt e.1]).length + 1 := by
        simp only [List.length_append, List.length_singleton]
        omega
      have hfilter : (e :: l).filter (fun e => e.2.status == .running && expired e.2 t) =
          e :: l.filter fun e => e.2.status == .running && expired e.2 t :=
        List.filter_cons_of_pos (by simp [hrun, hexp])
      rw [hstep, ok_bind, hs', hfilter, hcount, List.take_succ_cons]
      exact ⟨s', by simp, hagree'⟩
    · have hskip : MemoryTestWorldStore.reconcileAttempt limit t (e.2.attempt e.1) (recovered, s) =
          .ok (recovered, s) := by
        simp only [MemoryTestWorldStore.reconcileAttempt]
        split
        · rfl
        · next hgo =>
          have hrun : e.2.status = .running := not_not.mp (not_or.mp hgo).2
          have hexp : s.claimable (e.2.attempt e.1).id t = false := by
            refine (h.claimable_iff hrow t).trans ?_
            simpa [hrun] using hp
          rw [if_pos hexp]
      obtain ⟨s', hs', hagree⟩ := reconcile_rows limit t l recovered s T h hnodup' hrest
      have hfilter : (e :: l).filter (fun e => e.2.status == .running && expired e.2 t) =
          l.filter fun e => e.2.status == .running && expired e.2 t :=
        List.filter_cons_of_neg (by simpa using hp)
      rw [hskip, ok_bind, hs', hfilter]
      exact ⟨s', rfl, hagree⟩

theorem foldl_requeue (t : Time) (l : List (String × AttemptRow)) (T : PostgresTestWorldStore) :
    l.foldl (requeue t) T = ⟨l.foldl (touch t) T.worlds, l.foldl putBack T.attempts⟩ := by
  induction l generalizing T with
  | nil => rfl
  | cons e l ih => exact ih (requeue t T e)

theorem putBack_get?_ne (l : List (String × AttemptRow)) (attempts : Dict String AttemptRow) {id : String}
    (h : id ∉ l.map Prod.fst) : (l.foldl putBack attempts).get? id = attempts.get? id := by
  induction l generalizing attempts with
  | nil => rfl
  | cons e l ih =>
    simp only [List.map_cons, List.mem_cons, not_or] at h
    rw [List.foldl_cons, ih _ h.2]
    exact Dict.get?_set_ne _ _ h.1

theorem putBack_get? (l : List (String × AttemptRow)) (attempts : Dict String AttemptRow)
    (hnodup : (l.map Prod.fst).Nodup) :
    ∀ e ∈ l, (l.foldl putBack attempts).get? e.1 = some e.2.requeued := by
  induction l generalizing attempts with
  | nil => simp
  | cons e l ih =>
    obtain ⟨hfresh, hnodup'⟩ := List.nodup_cons.mp hnodup
    intro b hb
    rw [List.foldl_cons]
    rcases List.mem_cons.mp hb with rfl | hl
    · rw [putBack_get?_ne l _ hfresh]
      exact Dict.get?_set_self _ _ _
    · exact ih _ hnodup' b hl

/-- The statement that queues the rows again. -/
theorem putBack_ok : ∀ (l : List (String × AttemptRow)) (T : PostgresTestWorldStore),
    (∀ e ∈ l, e.2.requeued.Admitted e.1) →
    l.foldlM (fun U e => U.putAttempt e.1 e.2.requeued) T =
      .ok { T with attempts := l.foldl putBack T.attempts }
  | [], _, _ => rfl
  | e :: l, T, h => by
    rw [List.foldlM_cons, putAttempt_ok (h e List.mem_cons_self), ok_bind,
      putBack_ok l _ fun b hb => h b (List.mem_cons_of_mem e hb)]
    rfl

/-- The statements that set the worlds running and read the attempts back. -/
theorem touch_ok (t : Time) : ∀ (l : List (String × AttemptRow)) (read : List TestWorldAttempt)
    (U : PostgresTestWorldStore), Consistent cols U →
    (∀ e ∈ l, U.attempts.get? e.1 = some e.2.requeued) →
    l.foldlM (fun (r : List TestWorldAttempt × PostgresTestWorldStore) e => do
      let U ← r.2.updateStatus e.2.worldId e.2.ownerId .running t
      let attempt ← U.fetchAttempt e.1 e.2.ownerId
      .ok (r.1 ++ [attempt], U)) (read, U) =
      .ok (read ++ l.map (fun e => e.2.requeued.attempt e.1), { U with worlds := l.foldl (touch t) U.worlds })
  | [], read, U, _, _ => by simp; rfl
  | e :: l, read, U, hU, h => by
    have hrow := h e List.mem_cons_self
    obtain ⟨w, hw, howner⟩ : ∃ w, U.worlds.get? e.2.worldId = some w ∧ w.ownerId = e.2.ownerId := by
      obtain ⟨w, hw, howner, -⟩ := hU.parent _ _ hrow
      exact ⟨w, hw, howner⟩
    obtain ⟨hup, hcons⟩ := updateStatus_ok hU hw howner .running t
    have htouch : touch t U.worlds e =
        U.worlds.set e.2.worldId { w with status := .running, updatedAt := t } := by
      rw [touch, hw]
    have hread : (do
        let U ← U.updateStatus e.2.worldId e.2.ownerId .running t
        let attempt ← U.fetchAttempt e.1 e.2.ownerId
        .ok (read ++ [attempt], U)) = .ok (read ++ [e.2.requeued.attempt e.1],
          ({ U with worlds := touch t U.worlds e } : PostgresTestWorldStore)) := by
      rw [htouch, hup, ok_bind]
      simp only [fetchAttempt, hrow, if_pos (show e.2.requeued.ownerId = e.2.ownerId from rfl)]
      rfl
    rw [← htouch] at hcons
    rw [List.foldlM_cons]
    refine (congrArg (· >>= _) hread).trans ?_
    rw [ok_bind, touch_ok t l _ _ hcons fun b hb => h b (List.mem_cons_of_mem e hb)]
    simp

theorem reconcileActiveAttempts_agrees (h : Agrees cols s T) {limit : Int} {t : Time}
    (ht : cols.timestamptz t = some t) :
    Together (Same cols) (s.reconcileActiveAttempts limit t)
      (T.reconcileActiveAttempts cols limit t) := by
  refine Together.ite Iff.rfl (fun _ => rfl) fun hlimit => ?_
  obtain ⟨n, rfl⟩ : ∃ n : Nat, limit = n := ⟨limit.toNat, by omega⟩
  have hsorted : s.attempts.values.insertionSort attemptBefore =
      (T.attempts.entries.insertionSort rowBefore).map fun e => e.2.attempt e.1 := by
    rw [h.attempts, List.map_insertionSort rowBefore attemptBefore _ _ fun _ _ _ _ => Iff.rfl]
    simp only [Dict.values, Dict.mapWithKey, List.map_map, Function.comp_def]
  have hperm := List.perm_insertionSort rowBefore T.attempts.entries
  have hnodup : ((T.attempts.entries.insertionSort rowBefore).map Prod.fst).Nodup :=
    (hperm.map Prod.fst).nodup_iff.mpr T.attempts.nodup
  have hrows : ∀ e ∈ T.attempts.entries.insertionSort rowBefore, T.attempts.get? e.1 = some e.2 :=
    fun e he => (Dict.mem_entries_iff _ _ _).mp (hperm.mem_iff.mp he)
  obtain ⟨s', hs', hagree⟩ := reconcile_rows n t _ [] s T h hnodup hrows
  rw [hsorted, held_some ht, ok_bind, hs']
  generalize hc : ((T.attempts.entries.insertionSort rowBefore).filter
    fun e => e.2.status == .running && expired e.2 t).take (n - List.length []) = candidates at hagree hs' ⊢
  have hcand : (T.expiredRows .running t).take (n : Int).toNat = candidates := by
    rw [← hc]
    simp [expiredRows]
  have hsub : candidates.Sublist (T.attempts.entries.insertionSort rowBefore) :=
    hc ▸ (List.take_sublist _ _).trans List.filter_sublist
  have hrun : ∀ e ∈ candidates, e.2.status = .running := by
    intro e he
    have hmem := List.mem_of_mem_take (hc ▸ he)
    simpa using (And.left (by simpa using (List.mem_filter.mp hmem).2))
  have hadm : ∀ e ∈ candidates, e.2.requeued.Admitted e.1 := fun e he =>
    (h.consistent.attempts _ _ (hrows e (hsub.subset he))).requeued (by rw [hrun e he]; rfl)
  have hback := putBack_get? candidates T.attempts (hnodup.sublist (hsub.map Prod.fst))
  have hcons : Consistent cols { T with attempts := candidates.foldl putBack T.attempts } := by
    have hl := requeueRows_lawful h.consistent fun e he => ⟨hrows e (hsub.subset he), hrun e he⟩
    rw [putBack_ok candidates T hadm] at hl
    exact hl.1
  dsimp only
  rw [hcand, putBack_ok candidates T hadm, ok_bind, touch_ok t candidates [] _ hcons hback]
  rw [foldl_requeue] at hagree
  exact ⟨rfl, hagree⟩

end LilTweak.Worlds
