import LilTweak.Worlds.Postgres
import LilTweak.Lib.Outcome

/-!
# The constraints over whole histories

An invariant of the tables that makes every statement but one write an admitted
row, and what that one statement does: `release_attempt` clears the lease of a
row that stays `running`, so it fails on every lease that is held.
-/

namespace LilTweak.Worlds

open LilTweak.Lib LilTweak.Core LilTweak.Store PostgresTestWorldStore

variable {D : Digests} {float : ℚ → String} {cols : Columns} {T U : PostgresTestWorldStore}

/-- What ties the fields of a stored attempt together beyond its constraints. -/
structure AttemptRow.Sound (cols : Columns) (r : AttemptRow) : Prop where
  leased : r.leaseOwner.isSome = true ↔ r.status = .running
  expires : r.leaseExpiresAt.isSome = r.leaseOwner.isSome
  unjudged : r.status.active = true → r.judgeDurationMs = 0
  unstarted : r.status = .queued → r.startedAt = none
  owner : cols.text r.ownerId = some r.ownerId
  worker : ∀ w, r.leaseOwner = some w → cols.text w = some w

/-- The invariant of the tables. -/
structure Consistent (cols : Columns) (T : PostgresTestWorldStore) : Prop where
  worlds : ∀ id r, T.worlds.get? id = some r → r.Admitted id
  attempts : ∀ id r, T.attempts.get? id = some r → r.Admitted id
  sound : ∀ id r, T.attempts.get? id = some r → r.Sound cols
  key : ∀ id r, T.attempts.get? id = some r → cols.text id = some id
  parent : ∀ id r, T.attempts.get? id = some r → ∃ w, T.worlds.get? r.worldId = some w ∧
    w.ownerId = r.ownerId ∧ r.expectedCheckCount = w.checks.length
  numbered : ∀ worldId ownerId, (T.worldRows worldId ownerId).map (fun e => e.2.attemptNumber) =
    List.range' 1 (T.worldRows worldId ownerId).length

theorem consistent_empty : Consistent cols {} := by
  constructor
  all_goals intro id r
  all_goals try (intro h; cases h)
  rfl

/-- The columns no statement but the `INSERT` writes. -/
structure AttemptRow.SameAttempt (old new : AttemptRow) : Prop where
  worldId : new.worldId = old.worldId
  ownerId : new.ownerId = old.ownerId
  attemptNumber : new.attemptNumber = old.attemptNumber
  expectedCheckCount : new.expectedCheckCount = old.expectedCheckCount
  attemptMode : new.attemptMode = old.attemptMode
  attemptIdempotencyKey : new.attemptIdempotencyKey = old.attemptIdempotencyKey

/-! ## Rows that are written -/

section Rows

variable {id : String} {r : AttemptRow} {t expiresAt : Time}

theorem AttemptRow.Admitted.requeued (h : r.Admitted id) (hs : r.status.active = true) :
    r.requeued.Admitted id := by
  have he := h.ended.resolve_right fun hn => by simp [hs] at hn
  exact ⟨h.id, h.attemptNumber, h.worldFingerprint, h.judgeVersion, h.expectedCheckCount, h.outcome,
    h.cumulativePatch, h.texts, h.usage, h.durationMs, h.judgeDurationMs, h.attemptIdempotencyKey,
    h.judgeWithin, .inl (by simp [AttemptRow.requeued]), .inl ⟨rfl, he.2⟩,
    .inr (by simp [AttemptRow.requeued])⟩

theorem AttemptRow.Admitted.claimed (h : r.Admitted id) (hs : r.status.active = true)
    (workerId : String) : (r.claimed workerId expiresAt t).Admitted id := by
  have he := h.ended.resolve_right fun hn => by simp [hs] at hn
  exact ⟨h.id, h.attemptNumber, h.worldFingerprint, h.judgeVersion, h.expectedCheckCount, h.outcome,
    h.cumulativePatch, h.texts, h.usage, h.durationMs, h.judgeDurationMs, h.attemptIdempotencyKey,
    h.judgeWithin, .inl (by simp [AttemptRow.claimed]), .inl ⟨rfl, he.2⟩,
    .inl (by simp [AttemptRow.claimed])⟩

theorem AttemptRow.Admitted.renewed (h : r.Admitted id) (ho : r.leaseOwner.isSome = true) :
    ({ r with leaseExpiresAt := some expiresAt } : AttemptRow).Admitted id := by
  refine ⟨h.id, h.attemptNumber, h.worldFingerprint, h.judgeVersion, h.expectedCheckCount, h.outcome,
    h.cumulativePatch, h.texts, h.usage, h.durationMs, h.judgeDurationMs, h.attemptIdempotencyKey,
    h.judgeWithin, h.passProof, h.ended, ?_⟩
  by_cases hr : r.status = .running
  · exact .inl ⟨hr, Option.isSome_iff_ne_none.mp ho, by simp⟩
  · exact .inr hr

/-- Clearing the lease of a running row breaks its constraints. -/
theorem AttemptRow.not_admitted_released (hs : r.status = .running) : ¬r.released.Admitted id := by
  intro h
  rcases h.leased with hl | hl
  · exact hl.2.1 rfl
  · exact hl hs

theorem AttemptRow.Admitted.errored (h : r.Admitted id) (hj : r.judgeDurationMs = 0) {e : AttemptError}
    (hsum : e.summary.utf8ByteSize ≤ maxTextBytes) (hd : 0 ≤ e.durationMs ∧ e.durationMs ≤ maxDurationMs) :
    (r.errored e t).Admitted id :=
  ⟨h.id, h.attemptNumber, h.worldFingerprint, h.judgeVersion, h.expectedCheckCount,
    .inr (by simp [AttemptRow.errored]), h.cumulativePatch, ⟨h.texts.1, hsum, h.texts.2.2⟩, h.usage, hd,
    h.judgeDurationMs, h.attemptIdempotencyKey, .inl (hj.trans_le hd.1),
    .inl (by simp [AttemptRow.errored]), .inr ⟨rfl, by simp [AttemptRow.errored], by simp [AttemptRow.errored]⟩,
    .inr (by simp [AttemptRow.errored])⟩

/-- What the validation of a result and its columns establish. -/
structure AttemptResult.Storable (r : AttemptResult) : Prop where
  cumulativePatch : r.cumulativePatch.utf8ByteSize ≤ maxPatchBytes
  texts : r.plan.utf8ByteSize ≤ maxTextBytes ∧ r.summary.utf8ByteSize ≤ maxTextBytes ∧
    r.tests.utf8ByteSize ≤ maxTextBytes
  usage : 0 ≤ r.modelCalls ∧ 0 ≤ r.inputTokens ∧ 0 ≤ r.outputTokens ∧ 0 ≤ r.totalTokens
  durationMs : 0 ≤ r.durationMs ∧ r.durationMs ≤ maxDurationMs
  judgeDurationMs : 0 ≤ r.judgeDurationMs ∧ r.judgeDurationMs ≤ maxDurationMs
  judgeWithin : r.judgeDurationMs ≤ r.durationMs ∨ r.durationMs = 0

theorem AttemptRow.Admitted.judged (h : r.Admitted id) {a : AttemptResult} (ha : a.Storable)
    (hp : a.passed = true → a.feedback.length = r.expectedCheckCount) : (r.judged a t).Admitted id := by
  refine ⟨h.id, h.attemptNumber, h.worldFingerprint, h.judgeVersion, h.expectedCheckCount, .inr ?_,
    ha.cumulativePatch, ha.texts, ha.usage, ha.durationMs, ha.judgeDurationMs, h.attemptIdempotencyKey,
    ha.judgeWithin, ?_, .inr ⟨?_, ?_, ?_⟩, .inr ?_⟩
  all_goals cases hpass : a.passed
  all_goals simp [AttemptRow.judged, hpass, AttemptStatus.active]
  exact hp hpass

/-! What the statements keep of the attempt's identity, and that its fields still fit. -/

variable (r) in
theorem AttemptRow.sameAttempt_requeued : r.SameAttempt r.requeued := ⟨rfl, rfl, rfl, rfl, rfl, rfl⟩

theorem AttemptRow.sameAttempt_claimed (r : AttemptRow) (workerId : String) (expiresAt t : Time) :
    r.SameAttempt (r.claimed workerId expiresAt t) := ⟨rfl, rfl, rfl, rfl, rfl, rfl⟩

theorem AttemptRow.sameAttempt_renewed (r : AttemptRow) (expiresAt : Time) :
    r.SameAttempt { r with leaseExpiresAt := some expiresAt } := ⟨rfl, rfl, rfl, rfl, rfl, rfl⟩

theorem AttemptRow.sameAttempt_judged (r : AttemptRow) (a : AttemptResult) (t : Time) :
    r.SameAttempt (r.judged a t) := ⟨rfl, rfl, rfl, rfl, rfl, rfl⟩

theorem AttemptRow.sameAttempt_errored (r : AttemptRow) (e : AttemptError) (t : Time) :
    r.SameAttempt (r.errored e t) := ⟨rfl, rfl, rfl, rfl, rfl, rfl⟩

theorem AttemptRow.Sound.requeued (h : r.Sound cols) (hs : r.status.active = true) :
    r.requeued.Sound cols :=
  ⟨by simp [AttemptRow.requeued], rfl, fun _ => h.unjudged hs, fun _ => rfl, h.owner,
    by simp [AttemptRow.requeued]⟩

theorem AttemptRow.Sound.claimed (h : r.Sound cols) (hs : r.status.active = true) {workerId : String}
    (hw : cols.text workerId = some workerId) : (r.claimed workerId expiresAt t).Sound cols :=
  ⟨by simp [AttemptRow.claimed], rfl, fun _ => h.unjudged hs, by simp [AttemptRow.claimed], h.owner,
    by simpa [AttemptRow.claimed] using hw⟩

theorem AttemptRow.Sound.renewed (h : r.Sound cols) (hs : r.status = .running) :
    ({ r with leaseExpiresAt := some expiresAt } : AttemptRow).Sound cols :=
  ⟨h.leased, (h.leased.mpr hs).symm, h.unjudged, h.unstarted, h.owner, h.worker⟩

theorem AttemptRow.Sound.judged (h : r.Sound cols) (a : AttemptResult) : (r.judged a t).Sound cols := by
  refine ⟨?_, rfl, ?_, ?_, h.owner, by simp [AttemptRow.judged]⟩
  all_goals cases hp : a.passed <;> simp [AttemptRow.judged, hp, AttemptStatus.active]

theorem AttemptRow.Sound.errored (h : r.Sound cols) (e : AttemptError) : (r.errored e t).Sound cols := by
  refine ⟨?_, rfl, ?_, ?_, h.owner, by simp [AttemptRow.errored]⟩
  all_goals simp [AttemptRow.errored, AttemptStatus.active]

end Rows

/-! ## Preservation -/

theorem worldRows_numbers (T : PostgresTestWorldStore) (worldId ownerId : String) :
    (T.worldRows worldId ownerId).map (fun e => e.2.attemptNumber) =
      T.attempts.entries.filterMap fun e =>
        if e.2.worldId == worldId && e.2.ownerId == ownerId then some e.2.attemptNumber else none := by
  rw [worldRows, filterMap_ite]

/-- Overwriting the row of an attempt keeps the invariant. -/
theorem Consistent.update (hT : Consistent cols T) {id : String} {old new : AttemptRow}
    (hold : T.attempts.get? id = some old) (same : old.SameAttempt new) (hadm : new.Admitted id)
    (hsound : new.Sound cols) : Consistent cols { T with attempts := T.attempts.set id new } where
  worlds := hT.worlds
  attempts := by
    intro k r h
    rw [Dict.get?_set] at h
    split at h
    · next hk => cases h; exact hk ▸ hadm
    · exact hT.attempts k r h
  sound := by
    intro k r h
    rw [Dict.get?_set] at h
    split at h
    · cases h; exact hsound
    · exact hT.sound k r h
  key := by
    intro k r h
    rw [Dict.get?_set] at h
    split at h
    · next hk => exact hk ▸ hT.key id old hold
    · exact hT.key k r h
  parent := by
    intro k r h
    rw [Dict.get?_set] at h
    split at h
    · cases h
      rw [same.worldId, same.ownerId, same.expectedCheckCount]
      exact hT.parent id old hold
    · exact hT.parent k r h
  numbered := by
    intro worldId ownerId
    have hn := hT.numbered worldId ownerId
    have hsame : (worldRows { T with attempts := T.attempts.set id new } worldId ownerId).map
        (fun e => e.2.attemptNumber) = (T.worldRows worldId ownerId).map fun e => e.2.attemptNumber := by
      rw [worldRows_numbers, worldRows_numbers]
      exact Dict.filterMap_set_present hold (by
        simp only [same.worldId, same.ownerId, same.attemptNumber])
    have hlen := congrArg List.length hsame
    simp only [List.length_map] at hlen
    rw [hsame, hlen, hn]

/-- Writing a world's row over one with the same owner and checks keeps the invariant. -/
theorem Consistent.setWorld (hT : Consistent cols T) {id : String} {row : WorldRow}
    (hadm : row.Admitted id) (hsame : ∀ old, T.worlds.get? id = some old →
      row.ownerId = old.ownerId ∧ row.checks.length = old.checks.length) :
    Consistent cols { T with worlds := T.worlds.set id row } where
  worlds := by
    intro k r h
    rw [Dict.get?_set] at h
    split at h
    · next hk => cases h; exact hk ▸ hadm
    · exact hT.worlds k r h
  attempts := hT.attempts
  sound := hT.sound
  key := hT.key
  parent := by
    intro k r h
    obtain ⟨w, hw, howner, hchecks⟩ := hT.parent k r h
    by_cases hk : r.worldId = id
    · obtain ⟨ho, hc⟩ := hsame w (hk ▸ hw)
      refine ⟨row, ?_, ho.trans howner, hchecks.trans hc.symm⟩
      rw [Dict.get?_set, if_pos hk]
    · refine ⟨w, ?_, howner, hchecks⟩
      rw [Dict.get?_set, if_neg hk]
      exact hw
  numbered := hT.numbered

/-- Appending the next attempt of a world keeps the invariant. -/
theorem Consistent.append (hT : Consistent cols T) {id : String} {row : AttemptRow} {w : WorldRow}
    (hnew : T.attempts.get? id = none) (hid : cols.text id = some id) (hadm : row.Admitted id)
    (hsound : row.Sound cols) (hw : T.worlds.get? row.worldId = some w) (howner : w.ownerId = row.ownerId)
    (hchecks : row.expectedCheckCount = w.checks.length)
    (hnumber : row.attemptNumber = (T.worldRows row.worldId row.ownerId).length + 1) :
    Consistent cols { T with attempts := T.attempts.set id row } where
  worlds := hT.worlds
  attempts := by
    intro k r h
    rw [Dict.get?_set] at h
    split at h
    · next hk => cases h; exact hk ▸ hadm
    · exact hT.attempts k r h
  sound := by
    intro k r h
    rw [Dict.get?_set] at h
    split at h
    · cases h; exact hsound
    · exact hT.sound k r h
  key := by
    intro k r h
    rw [Dict.get?_set] at h
    split at h
    · next hk => exact hk ▸ hid
    · exact hT.key k r h
  parent := by
    intro k r h
    rw [Dict.get?_set] at h
    split at h
    · cases h; exact ⟨w, hw, howner, hchecks⟩
    · exact hT.parent k r h
  numbered := by
    intro worldId ownerId
    have hn := hT.numbered worldId ownerId
    have hrows : worldRows { T with attempts := T.attempts.set id row } worldId ownerId =
        T.worldRows worldId ownerId ++
          [(id, row)].filter fun e => e.2.worldId == worldId && e.2.ownerId == ownerId := by
      simp only [worldRows, Dict.entries_set_absent hnew, List.filter_append]
    rw [hrows, List.map_append, List.length_append, hn]
    by_cases hb : row.worldId = worldId ∧ row.ownerId = ownerId
    · obtain ⟨rfl, rfl⟩ := hb
      have hf : ([(id, row)].filter fun e => e.2.worldId == row.worldId && e.2.ownerId == row.ownerId) =
          [(id, row)] := by simp
      rw [hf, List.length_singleton, List.range'_concat, List.map_singleton, hnumber, Nat.one_mul,
        Nat.add_comm 1]
    · have hf : ([(id, row)].filter fun e => e.2.worldId == worldId && e.2.ownerId == ownerId) = [] := by
        simpa using fun h1 => fun h2 => hb ⟨h1, h2⟩
      simp [hf]

/-! ## Statements -/

/-- The error is no broken `CHECK`, and a duplicate key only where an id was in use. -/
def Harmless (used : Prop) (e : TestWorldFault) : Prop :=
  e ≠ .checkViolation ∧ (e = .keyViolation → used)

theorem held_yields {α : Type} (v : Option α) (used : Prop) :
    Yields (fun a => v = some a) (Harmless used) (held v) := by
  cases v with
  | none => exact ⟨by simp, by simp⟩
  | some a => rfl

theorem held_bind {α β : Type} {ok : β → Prop} {used : Prop} (v : Option α)
    {f : α → Except TestWorldFault β} (h : ∀ a, v = some a → Yields ok (Harmless used) (f a)) :
    Yields ok (Harmless used) (held v >>= f) := (held_yields v used).bind h

theorem text_bind {α : Type} {ok : α → Prop} {used : Prop} {s : String}
    {f : String → Except TestWorldFault α}
    (h : cols.text s = some s → Yields ok (Harmless used) (f s)) :
    Yields ok (Harmless used) (held (cols.text s) >>= f) := by
  refine (held_yields (cols.text s) used).bind fun v hv => ?_
  obtain rfl := cols.text_exact s v hv
  exact h hv

theorem putAttempt_bind {α : Type} {ok : α → Prop} {err : TestWorldFault → Prop} {id : String}
    {row : AttemptRow} {f : PostgresTestWorldStore → Except TestWorldFault α} (hadm : row.Admitted id)
    (h : Yields ok err (f { T with attempts := T.attempts.set id row })) :
    Yields ok err (T.putAttempt id row >>= f) := by
  rw [putAttempt, if_pos hadm]
  exact h

theorem updateStatus_ok (hT : Consistent cols T) {worldId ownerId : String} {row : WorldRow}
    (hrow : T.worlds.get? worldId = some row) (howner : row.ownerId = ownerId) (status : WorldStatus)
    (t : Time) : T.updateStatus worldId ownerId status t =
      .ok { T with worlds := T.worlds.set worldId { row with status, updatedAt := t } } ∧
    Consistent cols { T with worlds := T.worlds.set worldId { row with status, updatedAt := t } } := by
  have ha := hT.worlds worldId row hrow
  have hadm : ({ row with status, updatedAt := t } : WorldRow).Admitted worldId :=
    ⟨ha.id, ha.name, ha.objective, ha.repositoryUrl, ha.sourceCommit, ha.checks, ha.maxAttempts,
      ha.worldFingerprint, ha.judgeVersion, ha.createIdempotencyKey, ha.requestHash⟩
  refine ⟨?_, hT.setWorld hadm fun old hold => ?_⟩
  · simp only [updateStatus, hrow, if_pos howner, putWorld, if_pos hadm]
  · obtain rfl := Option.some.inj (hrow.symm.trans hold)
    exact ⟨rfl, rfl⟩

theorem updateStatus_bind {α : Type} {ok : α → Prop} {err : TestWorldFault → Prop}
    {worldId ownerId : String} {status : WorldStatus} {t : Time}
    {f : PostgresTestWorldStore → Except TestWorldFault α} (hT : Consistent cols T)
    (h : ∀ U, Consistent cols U → Yields ok err (f U)) :
    Yields ok err (T.updateStatus worldId ownerId status t >>= f) := by
  refine Yields.bind ?_ h
  cases hw : T.worlds.get? worldId with
  | none =>
    rw [updateStatus, hw]
    exact hT
  | some row =>
    by_cases howner : row.ownerId = ownerId
    · obtain ⟨hok, hkept⟩ := updateStatus_ok hT hw howner status t
      rw [hok]
      exact hkept
    · simp only [updateStatus, hw, if_neg howner]
      exact hT

theorem fetchWorld_yields (worldId ownerId : String) (used : Prop) :
    Yields (fun w => ∃ row, T.worlds.get? worldId = some row ∧ row.ownerId = ownerId ∧
      w = row.world worldId) (Harmless used) (T.fetchWorld worldId ownerId) := by
  unfold fetchWorld
  cases hw : T.worlds.get? worldId with
  | none => exact ⟨by simp, by simp⟩
  | some row =>
    exact Yields.ite (fun ho => ⟨row, rfl, ho, rfl⟩) fun _ => ⟨by simp, by simp⟩

theorem fetchAttempt_yields (attemptId ownerId : String) (used : Prop) :
    Yields (fun a => ∃ row, T.attempts.get? attemptId = some row ∧ row.ownerId = ownerId ∧
      a = row.attempt attemptId) (Harmless used) (T.fetchAttempt attemptId ownerId) := by
  unfold fetchAttempt
  cases hr : T.attempts.get? attemptId with
  | none => exact ⟨by simp, by simp⟩
  | some row =>
    exact Yields.ite (fun ho => ⟨row, rfl, ho, rfl⟩) fun _ => ⟨by simp, by simp⟩

theorem bigint_bind {β : Type} {ok : β → Prop} {used : Prop} {i : Int}
    {f : Int → Except TestWorldFault β} (h : bigint i = some i → Yields ok (Harmless used) (f i)) :
    Yields ok (Harmless used) (held (bigint i) >>= f) := by
  refine held_bind _ fun v hv => ?_
  have he : i = v := by
    unfold bigint at hv
    split at hv
    · exact Option.some.inj hv
    · cases hv
  exact he ▸ h (he ▸ hv)

theorem held_some {α : Type} {v : Option α} {a : α} (h : v = some a) : held v = .ok a := by
  rw [h]
  rfl

theorem putAttempt_ok {id : String} {row : AttemptRow} (h : row.Admitted id) :
    T.putAttempt id row = .ok { T with attempts := T.attempts.set id row } := if_pos h

theorem fetchWorld_ok {worldId ownerId : String} {row : WorldRow} (hrow : T.worlds.get? worldId = some row)
    (howner : row.ownerId = ownerId) : T.fetchWorld worldId ownerId = .ok (row.world worldId) := by
  simp only [fetchWorld, hrow, if_pos howner]

theorem fetchAttempt_ok {attemptId ownerId : String} {row : AttemptRow}
    (hrow : T.attempts.get? attemptId = some row) (howner : row.ownerId = ownerId) :
    T.fetchAttempt attemptId ownerId = .ok (row.attempt attemptId) := by
  simp only [fetchAttempt, hrow, if_pos howner]

theorem leaseColumns_yields (lease : TestWorldLease) (used : Prop) :
    Yields (fun l => l = lease) (Harmless used) (leaseColumns cols lease) :=
  text_bind fun _ => text_bind fun _ => text_bind fun _ => text_bind fun _ => rfl

theorem boundedText_yields (s : PyStr) (bound : Nat) (message : String) (used : Prop) :
    Yields (fun text => s.text? = some text ∧ text.utf8ByteSize ≤ bound) (Harmless used)
      (boundedText s bound message) := by
  unfold boundedText
  cases hs : s.text? with
  | none => exact ⟨by simp, by simp⟩
  | some text => exact Yields.ite (fun h => ⟨rfl, h⟩) fun _ => ⟨by simp, by simp⟩

theorem validateDuration_yields (value : Int) (field : String) (used : Prop) :
    Yields (fun v => v = value ∧ 0 ≤ v ∧ v ≤ maxDurationMs) (Harmless used)
      (validateDuration value field) :=
  Yields.ite (fun h => ⟨rfl, h⟩) fun _ => ⟨by simp, by simp⟩

theorem validateFeedback_yields (feedback : List JsonObj) (used : Prop) :
    Yields (fun v => v = feedback) (Harmless used) (validateFeedback float feedback) :=
  Yields.ite (fun _ => rfl) fun _ => ⟨by simp, by simp⟩

theorem CompleteCall.validate_yields (c : CompleteCall) (float : ℚ → String) :
    Yields AttemptResult.Storable (Harmless False) (c.validate float) := by
  refine (boundedText_yields _ _ _ _).bind fun cumulativePatch hpatch => ?_
  refine (validateFeedback_yields _ _).bind fun feedback _ => ?_
  refine (validateDuration_yields _ _ _).bind fun durationMs hduration => ?_
  refine (validateDuration_yields _ _ _).bind fun judgeDurationMs hjudge => ?_
  refine Yields.ite (fun _ => ⟨by simp, by simp⟩) fun hwithin => ?_
  refine (boundedText_yields _ _ _ _).bind fun plan hplan => ?_
  refine (boundedText_yields _ _ _ _).bind fun summary hsummary => ?_
  refine (boundedText_yields _ _ _ _).bind fun tests htests => ?_
  refine Yields.ite (fun _ => ⟨by simp, by simp⟩) fun husage => ?_
  refine ⟨hpatch.2, ⟨hplan.2, hsummary.2, htests.2⟩, ?_, hduration.2, hjudge.2, ?_⟩
  · show 0 ≤ c.modelCalls ∧ 0 ≤ c.inputTokens ∧ 0 ≤ c.outputTokens ∧ 0 ≤ c.totalTokens
    omega
  · show judgeDurationMs ≤ durationMs ∨ durationMs = 0
    omega

theorem FailCall.validate_yields (c : FailCall) (float : ℚ → String) :
    Yields (fun e => e.summary.utf8ByteSize ≤ maxTextBytes ∧ 0 ≤ e.durationMs ∧
      e.durationMs ≤ maxDurationMs) (Harmless False) (c.validate float) := by
  refine (validateFeedback_yields _ _).bind fun feedback _ => ?_
  refine (validateDuration_yields _ _ _).bind fun durationMs hduration => ?_
  refine (boundedText_yields _ _ _ _).bind fun summary hsummary => ?_
  exact ⟨hsummary.2, hduration.2⟩

/-! ## Operations -/

theorem taggedHex_uuid (tag : String) (uuid : Uuid) : taggedHex tag (tag ++ uuid.hex) = true := by
  have hd := uuid.digits
  have hl : (tag ++ uuid.hex).length = tag.length + 32 := by
    rw [String.length_append, uuid.length]
  have hdrop : (tag.toList ++ uuid.hex.toList).drop tag.length = uuid.hex.toList := by
    rw [← String.length_toList, List.drop_left]
  simp only [taggedHex, hl, String.toList_append, hdrop, hd, decide_true, Bool.and_true]
  exact List.isPrefixOf_iff_prefix.mpr (List.prefix_append _ _)

/-- A validated definition makes an admitted row. -/
theorem newWorld_admitted {owner key : String} {d : WorldDefinition}
    (h : definitionAdmits owner key d = true) (uuid : Uuid) {checks : List TestCheck}
    (hc : checks.length = d.checks.length) (ownerId : String) (t : Time) :
    WorldRow.Admitted ("world:" ++ uuid.hex)
      { ownerId, name := strip d.name, objective := strip d.objective
        repositoryUrl := d.repositoryUrl, sourceCommit := d.commit, checks
        maxAttempts := d.maxAttempts, status := .ready, worldFingerprint := D.worldFingerprint d
        judgeVersion := D.judgeVersion d.checks, createIdempotencyKey := key
        requestHash := D.worldFingerprint d, createdAt := t, updatedAt := t } := by
  simp only [definitionAdmits, keyAdmits, Bool.and_eq_true, decide_eq_true_eq] at h
  obtain ⟨⟨⟨⟨⟨⟨⟨⟨⟨⟨_, hkey⟩, hname⟩, hname'⟩, hobj⟩, hobj'⟩, hurl⟩, _⟩, hcommit⟩, hchecks⟩, hmax⟩ := h
  have bound : ∀ s : String, s.length ≤ s.utf8ByteSize := length_le_utf8ByteSize
  refine ⟨taggedHex_uuid _ uuid, ⟨strip_ne_empty hname, ?_⟩, ⟨strip_ne_empty hobj, ?_⟩, hurl, hcommit,
    hc ▸ hchecks, hmax, D.fingerprint_hex d, D.judge_hex _, ⟨?_, (bound key).trans hkey.2⟩,
    D.fingerprint_hex d⟩
  · exact (length_strip_le _).trans ((bound _).trans hname')
  · exact (length_strip_le _).trans ((bound _).trans hobj')
  · have hne : key.length ≠ 0 := by simpa using hkey.1
    exact Nat.one_le_iff_ne_zero.mpr hne

theorem insertWorld_eq {id : String} {row : WorldRow} (hadm : row.Admitted id)
    (hnew : T.worldUnder row.ownerId row.createIdempotencyKey = none) :
    T.insertWorld id row = if T.worlds.contains id then .error .keyViolation
      else .ok { T with worlds := T.worlds.set id row } := by
  have hdup : (T.worlds.values.any fun r =>
      r.ownerId == row.ownerId && r.createIdempotencyKey == row.createIdempotencyKey) = false := by
    have h := List.find?_eq_none.mp hnew
    simp only [Dict.values, List.any_map, List.any_eq_false]
    exact h
  simp only [insertWorld, putWorld, if_pos hadm, hdup, or_false, Bool.false_eq_true, ok_bind]

theorem insertWorld_yields {id : String} {row : WorldRow} (hadm : row.Admitted id)
    (hnew : T.worldUnder row.ownerId row.createIdempotencyKey = none) :
    Yields (fun U => T.worlds.get? id = none ∧ U = { T with worlds := T.worlds.set id row })
      (Harmless (T.worlds.contains id = true)) (T.insertWorld id row) := by
  rw [insertWorld_eq hadm hnew]
  refine Yields.ite (fun h => ⟨by simp, fun _ => h⟩) fun h => ⟨?_, rfl⟩
  simpa [Dict.contains] using h

theorem createWorld_lawful (hT : Consistent cols T) (ownerId key : String) (d : WorldDefinition)
    (uuid : Uuid) (t : Time) : Yields (fun r => Consistent cols r.2)
      (Harmless (T.worlds.contains ("world:" ++ uuid.hex) = true))
      (T.createWorld D cols ownerId key d uuid t) := by
  unfold createWorld
  split
  · exact ⟨by simp, by simp⟩
  next hadm =>
  have hadm : definitionAdmits ownerId key d = true := by simpa using hadm
  refine text_bind fun _ => ?_
  refine text_bind fun _ => ?_
  cases hunder : T.worldUnder ownerId key with
  | some found =>
    refine Yields.ite (fun _ => ⟨by simp, by simp⟩) fun _ => Yields.map ?_
    exact (fetchWorld_yields _ _ _).weaken (fun _ _ => hT) fun _ h => h
  | none =>
    refine text_bind fun _ => ?_
    refine text_bind fun _ => ?_
    refine text_bind fun _ => ?_
    refine held_bind _ fun checks hchecks => ?_
    refine text_bind fun _ => ?_
    have hrow := newWorld_admitted (D := D) hadm uuid (cols.checks_length _ _ hchecks) ownerId t
    refine (insertWorld_yields hrow hunder).bind fun U hU => ?_
    obtain ⟨hnew, rfl⟩ := hU
    refine (fetchWorld_yields _ _ _).bind fun world _ => ?_
    exact hT.setWorld hrow fun old hold => by simp [hnew] at hold

/-- A queued attempt's row is admitted and sound. -/
theorem newAttempt_admitted {key : String} (hkey : keyAdmits key = true) {w : WorldRow} {worldId : String}
    (hw : w.Admitted worldId) (uuid : Uuid) (number : Nat) (hn : 1 ≤ number ∧ (number : Int) ≤ w.maxAttempts)
    (ownerId : String) (attemptMode : AttemptMode) (previousAttemptId : Option String) (t : Time) :
    AttemptRow.Admitted ("attempt:" ++ uuid.hex)
      { worldId, ownerId, attemptNumber := number, status := .queued, attemptMode
        worldFingerprint := w.worldFingerprint, judgeVersion := w.judgeVersion
        expectedCheckCount := w.checks.length, previousAttemptId
        attemptIdempotencyKey := key, createdAt := t } := by
  simp only [keyAdmits, Bool.and_eq_true, decide_eq_true_eq] at hkey
  have hmax := hw.maxAttempts
  have hne : key.length ≠ 0 := by simpa using hkey.1
  refine ⟨taggedHex_uuid _ uuid, ⟨hn.1, show number ≤ 10 by omega⟩, hw.worldFingerprint, hw.judgeVersion, hw.checks,
    .inl rfl, by simp, by simp, by simp, by simp, by simp,
    ⟨Nat.one_le_iff_ne_zero.mpr hne, (length_le_utf8ByteSize key).trans hkey.2⟩, by simp, by simp,
    .inl (by simp [AttemptStatus.active]), by simp⟩

theorem insertAttempt_eq (hT : Consistent cols T) {id : String} {row : AttemptRow}
    (hadm : row.Admitted id) (hnew : T.attemptUnder row.ownerId row.attemptIdempotencyKey = none)
    {w : WorldRow} (hw : T.worlds.get? row.worldId = some w) (howner : w.ownerId = row.ownerId)
    (hnumber : row.attemptNumber = (T.worldRows row.worldId row.ownerId).length + 1) :
    T.insertAttempt id row = if T.attempts.contains id then .error .keyViolation
      else .ok { T with attempts := T.attempts.set id row } := by
  have hkey := List.find?_eq_none.mp hnew
  have hdup : (T.attempts.values.any fun r =>
      (r.ownerId == row.ownerId && r.attemptIdempotencyKey == row.attemptIdempotencyKey) ||
      (r.worldId == row.worldId && r.attemptNumber == row.attemptNumber)) = false := by
    simp only [Dict.values, List.any_map, List.any_eq_false, Function.comp_apply, Bool.or_eq_true,
      not_or]
    intro e he
    refine ⟨hkey e he, fun hsame => ?_⟩
    simp only [Bool.and_eq_true, beq_iff_eq] at hsame
    obtain ⟨w', hw', howner', -⟩ := hT.parent e.1 e.2 ((Dict.mem_entries_iff _ _ _).mp he)
    have hww : w' = w := Option.some.inj (hw'.symm.trans (hsame.1 ▸ hw))
    have hmem : e ∈ T.worldRows row.worldId row.ownerId := by
      simp only [worldRows, List.mem_filter, Bool.and_eq_true, beq_iff_eq]
      exact ⟨he, hsame.1, by rw [← howner', hww, howner]⟩
    have hin := List.mem_map_of_mem (f := fun e => e.2.attemptNumber) hmem
    rw [hT.numbered, List.mem_range'_1] at hin
    omega
  have hworld : T.worlds.contains row.worldId = true := (Dict.contains_iff _ _).mpr ⟨w, hw⟩
  simp only [insertAttempt, putAttempt, if_pos hadm, hdup, hworld, or_false, Bool.false_eq_true,
    Bool.true_eq_false, ok_bind]

theorem insertAttempt_yields (hT : Consistent cols T) {id : String} {row : AttemptRow}
    (hadm : row.Admitted id) (hnew : T.attemptUnder row.ownerId row.attemptIdempotencyKey = none)
    {w : WorldRow} (hw : T.worlds.get? row.worldId = some w) (howner : w.ownerId = row.ownerId)
    (hnumber : row.attemptNumber = (T.worldRows row.worldId row.ownerId).length + 1) :
    Yields (fun U => T.attempts.get? id = none ∧ U = { T with attempts := T.attempts.set id row })
      (Harmless (T.attempts.contains id = true)) (T.insertAttempt id row) := by
  rw [insertAttempt_eq hT hadm hnew hw howner hnumber]
  refine Yields.ite (fun h => ⟨by simp, fun _ => h⟩) fun h => ⟨?_, rfl⟩
  simpa [Dict.contains] using h

theorem enqueueAttempt_lawful (hT : Consistent cols T) (worldId ownerId key mode : String) (uuid : Uuid)
    (t : Time) : Yields (fun r => Consistent cols r.2)
      (Harmless (T.attempts.contains ("attempt:" ++ uuid.hex) = true))
      (T.enqueueAttempt cols worldId ownerId key mode uuid t) := by
  unfold enqueueAttempt
  split
  · exact ⟨by simp, by simp⟩
  next hadm =>
  have hkey : keyAdmits key = true := by simpa using hadm
  cases AttemptMode.ofValue? mode with
  | none => exact ⟨by simp, by simp⟩
  | some attemptMode =>
    refine text_bind fun howner => ?_
    refine text_bind fun _ => ?_
    cases hunder : T.attemptUnder ownerId key with
    | some found =>
      refine Yields.ite (fun _ => ⟨by simp, by simp⟩) fun _ => Yields.map ?_
      exact (fetchAttempt_yields _ _ _).weaken (fun _ _ => hT) fun _ h => h
    | none =>
      refine text_bind fun _ => ?_
      refine (fetchWorld_yields _ _ _).bind fun world hworld => ?_
      obtain ⟨row, hrow, hown, rfl⟩ := hworld
      have hw := hT.worlds worldId row hrow
      refine Yields.ite (fun _ => ⟨by simp, by simp⟩) fun _ => ?_
      refine Yields.ite (fun _ => ⟨by simp, by simp⟩) fun _ => ?_
      refine Yields.ite (fun _ => ⟨by simp, by simp⟩) fun hfull => ?_
      simp only [List.length_insertionSort, ge_iff_le, not_le] at hfull ⊢
      refine text_bind fun hid => ?_
      have hnew := newAttempt_admitted hkey hw uuid ((T.worldRows worldId ownerId).length + 1)
        ⟨by omega, by have : ((T.worldRows worldId ownerId).length : Int) < row.maxAttempts := hfull; omega⟩
        ownerId attemptMode
        (((T.worldRows worldId ownerId).insertionSort numberDown).head?.map Prod.fst) t
      refine (insertAttempt_yields hT hnew hunder hrow hown rfl).bind fun U hU => ?_
      obtain ⟨habsent, rfl⟩ := hU
      have hcons := hT.append habsent hid hnew
        ⟨by simp, rfl, fun _ => rfl, fun _ => rfl, howner, by simp⟩ hrow hown rfl rfl
      refine updateStatus_bind hcons fun U hU => ?_
      exact (fetchAttempt_yields _ _ _).bind fun _ _ => hU

/-- Every stored attempt has kept its identity. -/
def Kept (T U : PostgresTestWorldStore) : Prop :=
  ∀ id row, T.attempts.get? id = some row → ∃ old, U.attempts.get? id = some old ∧ old.SameAttempt row

/-- Running rows that are queued again stay within the invariant. -/
theorem requeueRows_lawful (hT : Consistent cols T) {l : List (String × AttemptRow)}
    (hl : ∀ e ∈ l, T.attempts.get? e.1 = some e.2 ∧ e.2.status = .running) :
    Yields (fun U => Consistent cols U ∧ Kept T U) (Harmless False)
      (l.foldlM (fun U e => U.putAttempt e.1 e.2.requeued) T) := by
  refine Yields.foldlM _ ⟨hT, fun id row h => ⟨row, h, ⟨rfl, rfl, rfl, rfl, rfl, rfl⟩⟩⟩ ?_
  intro U e he hU
  obtain ⟨hrow, hrun⟩ := hl e he
  have hactive : e.2.status.active = true := by rw [hrun]; rfl
  have hadm := (hT.attempts _ _ hrow).requeued hactive
  obtain ⟨old, hold, hsame⟩ := hU.2 _ _ hrow
  rw [putAttempt, if_pos hadm]
  refine ⟨hU.1.update hold ⟨hsame.worldId, hsame.ownerId, hsame.attemptNumber,
    hsame.expectedCheckCount, hsame.attemptMode, hsame.attemptIdempotencyKey⟩ hadm
    ((hT.sound _ _ hrow).requeued hactive), fun id row h => ?_⟩
  by_cases hid : id = e.1
  · subst hid
    obtain rfl := Option.some.inj (hrow.symm.trans h)
    exact ⟨e.2.requeued, Dict.get?_set_self _ _ _, ⟨rfl, rfl, rfl, rfl, rfl, rfl⟩⟩
  · rw [Dict.get?_set_ne _ _ hid]
    exact hU.2 id row h

/-- The rows a reconciliation selects are stored and running. -/
theorem mem_expiredRows {status : AttemptStatus} {now : Time} {e : String × AttemptRow}
    (he : e ∈ T.expiredRows status now) : T.attempts.get? e.1 = some e.2 ∧ e.2.status = status := by
  rw [expiredRows, List.mem_filter, List.mem_insertionSort] at he
  simp only [Bool.and_eq_true, beq_iff_eq] at he
  exact ⟨(Dict.mem_entries_iff _ _ _).mp he.1, he.2.1⟩

theorem reconcileActiveAttempts_lawful (hT : Consistent cols T) (limit : Int) (t : Time) :
    Yields (fun r => Consistent cols r.2) (Harmless False) (T.reconcileActiveAttempts cols limit t) := by
  unfold reconcileActiveAttempts
  split
  · exact ⟨by simp, by simp⟩
  refine held_bind _ fun now _ => ?_
  refine (requeueRows_lawful hT fun e he => mem_expiredRows (List.mem_of_mem_take he)).bind fun U hU => ?_
  refine Yields.foldlM _ hU.1 fun r e _ hr => ?_
  exact updateStatus_bind hr fun V hV => (fetchAttempt_yields _ _ _).bind fun _ _ => hV

theorem claimAttempt_lawful (hT : Consistent cols T) (attemptId workerId : String) (leaseSeconds : Int)
    (t : Time) : Yields (fun r => Consistent cols r.2) (Harmless False)
      (T.claimAttempt cols attemptId workerId leaseSeconds t) := by
  unfold claimAttempt
  split
  · exact ⟨by simp, by simp⟩
  refine text_bind fun hworker => ?_
  refine held_bind _ fun expiresAt _ => ?_
  refine held_bind _ fun now _ => ?_
  refine text_bind fun _ => ?_
  cases hrow : T.attempts.get? attemptId with
  | none => exact hT
  | some row =>
    refine Yields.ite (fun _ => hT) fun hq => ?_
    have hqueued : row.status = .queued := by simpa using (not_or.mp hq).1
    have hactive : row.status.active = true := by rw [hqueued]; rfl
    refine held_bind _ fun generation _ => ?_
    have hadm : (row.claimed workerId expiresAt now).Admitted attemptId :=
      (hT.attempts attemptId row hrow).claimed hactive workerId
    have hcons := hT.update hrow (row.sameAttempt_claimed workerId expiresAt now) hadm
      ((hT.sound attemptId row hrow).claimed hactive hworker)
    exact putAttempt_bind hadm (updateStatus_bind hcons fun U hU => hU)

theorem renewAttempt_lawful (hT : Consistent cols T) (lease : TestWorldLease) (leaseSeconds : Int)
    (t : Time) : Yields (fun r => Consistent cols r.2) (Harmless False)
      (T.renewAttempt cols lease leaseSeconds t) := by
  unfold renewAttempt
  split
  · exact ⟨by simp, by simp⟩
  refine held_bind _ fun expiresAt _ => ?_
  refine held_bind _ fun now _ => ?_
  refine (leaseColumns_yields _ _).bind fun bound _ => ?_
  cases hrow : T.attempts.get? bound.attemptId with
  | none => exact ⟨by simp, by simp⟩
  | some row =>
    refine Yields.ite (fun _ => ⟨by simp, by simp⟩) fun hheld => ?_
    have hrun : row.status = .running := by
      have h := (not_or.mp (not_or.mp (not_or.mp hheld).2).2).1
      simpa using h
    have hs := hT.sound _ row hrow
    have hadm : ({ row with leaseExpiresAt := some expiresAt } : AttemptRow).Admitted bound.attemptId :=
      (hT.attempts _ row hrow).renewed (hs.leased.mpr hrun)
    exact putAttempt_bind hadm
      (hT.update hrow (row.sameAttempt_renewed expiresAt) hadm (hs.renewed hrun))

/-- The lease names the present holder of an attempt. -/
def PostgresTestWorldStore.Leases (T : PostgresTestWorldStore) (lease : TestWorldLease) : Prop :=
  ∃ row, T.attempts.get? lease.attemptId = some row ∧ leasedTo row lease = true

/-- Releasing a lease that is held fails on the constraints; any other release writes nothing. -/
theorem releaseAttempt_cases (hT : Consistent cols T) (lease : TestWorldLease) :
    (T.Leases lease → T.releaseAttempt cols lease = .error .checkViolation) ∧
    (¬T.Leases lease → Yields (fun r => r.2 = T) (Harmless False) (T.releaseAttempt cols lease)) := by
  constructor
  · intro h
    obtain ⟨row, hrow, hto⟩ := h
    have hs := hT.sound _ row hrow
    have hparts := hto
    simp only [leasedTo, Bool.and_eq_true, beq_iff_eq] at hparts
    have hw := hs.worker _ hparts.1.2
    have ho : cols.text lease.ownerId = some lease.ownerId := hparts.1.1 ▸ hs.owner
    have hrun := hs.leased.mp (by rw [hparts.1.2]; rfl)
    simp only [releaseAttempt, hT.key _ row hrow, ho, hw, held, hrow, hto, Bool.true_eq_false, if_false,
      putAttempt, if_neg (AttemptRow.not_admitted_released hrun), bind, Except.bind]
  · intro h
    refine text_bind fun _ => text_bind fun _ => text_bind fun _ => ?_
    cases hrow : T.attempts.get? lease.attemptId with
    | none => rfl
    | some row =>
      have hto : leasedTo row lease = false := by
        by_contra hn
        exact h ⟨row, hrow, by simpa using hn⟩
      exact Yields.ite (fun _ => rfl) fun hn => absurd hto hn

theorem leasedRow_yields (lease : TestWorldLease) :
    Yields (fun row => T.attempts.get? lease.attemptId = some row ∧ leasedTo row lease = true ∧
      row.worldId = lease.worldId ∧ row.status = .running) (Harmless False) (T.leasedRow lease) := by
  unfold leasedRow
  cases hrow : T.attempts.get? lease.attemptId with
  | none => exact ⟨by simp, by simp⟩
  | some row =>
    exact Yields.ite (fun h => ⟨rfl, h⟩) fun _ => ⟨by simp, by simp⟩

theorem resultColumns_yields {r : AttemptResult} (h : r.Storable) :
    Yields (fun a => a.Storable ∧ a.passed = r.passed ∧ a.feedback.length = r.feedback.length)
      (Harmless False) (resultColumns cols r) := by
  refine held_bind _ fun feedback hf => ?_
  refine text_bind fun _ => text_bind fun _ => text_bind fun _ => text_bind fun _ => ?_
  refine bigint_bind fun _ => bigint_bind fun _ => bigint_bind fun _ => bigint_bind fun _ => ?_
  exact ⟨⟨h.cumulativePatch, h.texts, h.usage, h.durationMs, h.judgeDurationMs, h.judgeWithin⟩, rfl,
    cols.feedback_length _ _ hf⟩

theorem completeAttempt_lawful (hT : Consistent cols T) (lease : TestWorldLease) (c : CompleteCall)
    (t : Time) : Yields (fun r => Consistent cols r.2) (Harmless False)
      (T.completeAttempt float cols lease c t) := by
  refine (c.validate_yields float).bind fun result hresult => ?_
  refine (leaseColumns_yields _ _).bind fun bound _ => ?_
  refine (leasedRow_yields _).bind fun row hrow => ?_
  obtain ⟨hrow, -, hworld, hrun⟩ := hrow
  refine (fetchWorld_yields _ _ _).bind fun world hw => ?_
  obtain ⟨wrow, hwrow, -, rfl⟩ := hw
  refine Yields.ite (fun _ => ⟨by simp, by simp⟩) fun _ => ?_
  refine Yields.ite (fun _ => ⟨by simp, by simp⟩) fun hproof => ?_
  refine (resultColumns_yields hresult).bind fun a ha => ?_
  obtain ⟨hstore, hpassed, hlen⟩ := ha
  refine held_bind _ fun now _ => ?_
  have hs := hT.sound _ row hrow
  have hcount : a.passed = true → a.feedback.length = row.expectedCheckCount := by
    intro hp
    obtain ⟨w, hw, -, hexp⟩ := hT.parent _ row hrow
    obtain rfl := Option.some.inj (hw.symm.trans (hworld ▸ hwrow))
    have hfull := not_and.mp hproof (hpassed ▸ hp)
    simp only [hasCompletePassProof, Bool.not_eq_false, Bool.and_eq_true, decide_eq_true_eq] at hfull
    rw [hlen, hexp, hfull.1]
    rfl
  have hadm : (row.judged a now).Admitted bound.attemptId := (hT.attempts _ row hrow).judged hstore hcount
  have hcons := hT.update hrow (row.sameAttempt_judged a now) hadm (hs.judged a)
  refine putAttempt_bind hadm (updateStatus_bind hcons fun U hU => ?_)
  exact (fetchAttempt_yields _ _ _).bind fun _ _ => hU

theorem failAttempt_lawful (hT : Consistent cols T) (lease : TestWorldLease) (c : FailCall) (t : Time) :
    Yields (fun r => Consistent cols r.2) (Harmless False) (T.failAttempt float cols lease c t) := by
  refine (c.validate_yields float).bind fun error herror => ?_
  refine (leaseColumns_yields _ _).bind fun bound _ => ?_
  refine (leasedRow_yields _).bind fun row hrow => ?_
  obtain ⟨hrow, -, hworld, hrun⟩ := hrow
  refine (fetchWorld_yields _ _ _).bind fun world hw => ?_
  obtain ⟨wrow, hwrow, -, rfl⟩ := hw
  refine held_bind _ fun feedback _ => ?_
  refine text_bind fun _ => ?_
  refine held_bind _ fun now _ => ?_
  have hs := hT.sound _ row hrow
  have hadm := (hT.attempts _ row hrow).errored (t := now) (hs.unjudged (by rw [hrun]; rfl))
    (e := { error with feedback }) herror.1 herror.2
  have hcons := hT.update hrow (row.sameAttempt_errored _ now) hadm (hs.errored _)
  refine putAttempt_bind hadm (updateStatus_bind hcons fun U hU => ?_)
  exact (fetchAttempt_yields _ _ _).bind fun _ _ => hU

/-! ## Histories -/

/-- The tables after a call; a call that raises is rolled back. -/
def PostgresTestWorldStore.after (D : Digests) (float : ℚ → String) (cols : Columns)
    (T : PostgresTestWorldStore) (c : Call × Time) : PostgresTestWorldStore :=
  match T.call D float cols c.2 c.1 with
  | .ok r => r.2
  | .error _ => T

/-- The tables after a sequence of calls from empty ones. -/
def PostgresTestWorldStore.history (D : Digests) (float : ℚ → String) (cols : Columns)
    (l : List (Call × Time)) : PostgresTestWorldStore := l.foldl (after D float cols) {}

/-- The id a call would insert is in use. -/
def Call.Collides (T : PostgresTestWorldStore) : Call → Prop
  | .createWorld _ _ _ uuid => T.worlds.contains ("world:" ++ uuid.hex) = true
  | .enqueueAttempt _ _ _ _ uuid => T.attempts.contains ("attempt:" ++ uuid.hex) = true
  | _ => False

theorem yields_wrap {α σ : Type} {P : σ → Prop} {err : TestWorldFault → Prop} {f : α → Answer}
    {x : Except TestWorldFault (α × σ)} (h : Yields (fun r => P r.2) err x) :
    Yields (fun r => P r.2) err (wrap f x) := by
  cases x with
  | error e => exact h
  | ok r => exact h

/-- A call that releases no held lease keeps the invariant and breaks no constraint. -/
theorem call_lawful (hT : Consistent cols T) (c : Call) (t : Time)
    (hc : ∀ lease, c = .releaseAttempt lease → ¬T.Leases lease) :
    Yields (fun r => Consistent cols r.2) (Harmless (c.Collides T)) (T.call D float cols t c) := by
  cases c with
  | createWorld owner key d uuid => exact yields_wrap (createWorld_lawful hT owner key d uuid t)
  | enqueueAttempt worldId owner key mode uuid =>
    exact yields_wrap (enqueueAttempt_lawful hT worldId owner key mode uuid t)
  | reconcileActiveAttempts limit => exact yields_wrap (reconcileActiveAttempts_lawful hT limit t)
  | claimAttempt attemptId worker seconds =>
    exact yields_wrap (claimAttempt_lawful hT attemptId worker seconds t)
  | renewAttempt lease seconds => exact yields_wrap (renewAttempt_lawful hT lease seconds t)
  | releaseAttempt lease =>
    have h : Yields (fun r => Consistent cols r.2) (Harmless False) (T.releaseAttempt cols lease) :=
      ((releaseAttempt_cases hT lease).2 (hc lease rfl)).weaken (fun r hr => hr ▸ hT) fun _ he => he
    exact yields_wrap (f := fun _ => Answer.unit) h
  | completeAttempt lease c => exact yields_wrap (completeAttempt_lawful hT lease c t)
  | failAttempt lease c => exact yields_wrap (failAttempt_lawful hT lease c t)

theorem after_consistent (hT : Consistent cols T) (c : Call × Time) :
    Consistent cols (T.after D float cols c) := by
  unfold PostgresTestWorldStore.after
  by_cases hc : ∀ lease, c.1 = .releaseAttempt lease → ¬T.Leases lease
  · have h : Yields (fun r => Consistent cols r.2) (Harmless (c.1.Collides T))
        (T.call D float cols c.2 c.1) := call_lawful hT c.1 c.2 hc
    split
    · next r hr => rw [hr] at h; exact h
    · exact hT
  · simp only [not_forall, not_not] at hc
    obtain ⟨lease, hrel, hheld⟩ := hc
    have h := (releaseAttempt_cases hT lease).1 hheld
    simp only [hrel, PostgresTestWorldStore.call, wrap, h]
    exact hT

theorem history_consistent (D : Digests) (float : ℚ → String) (cols : Columns) (l : List (Call × Time)) :
    Consistent cols (history D float cols l) := by
  suffices h : ∀ T, Consistent cols T → Consistent cols (l.foldl (after D float cols) T) from
    h {} consistent_empty
  induction l with
  | nil => exact fun T hT => hT
  | cons c l ih => exact fun T hT => ih _ (after_consistent hT c)

theorem history_append (D : Digests) (float : ℚ → String) (cols : Columns) (l m : List (Call × Time)) :
    history D float cols (l ++ m) = m.foldl (after D float cols) (history D float cols l) := List.foldl_append

/-- The first attempt at an open world is queued. -/
theorem enqueueAttempt_queues (D : Digests) (float : ℚ → String) (hT : Consistent cols T) {worldId ownerId : String}
    {world : WorldRow} (key mode : String) {attemptMode : AttemptMode} (uuid : Uuid) (t : Time)
    (hfirst : T.attempts.entries = []) (hworld : T.worlds.get? worldId = some world) (howner : world.ownerId = ownerId)
    (hopen : world.status.closed = false) (hkey : keyAdmits key = true) (hmode : AttemptMode.ofValue? mode = some attemptMode)
    (hcols : ∀ s ∈ [ownerId, key, worldId, "attempt:" ++ uuid.hex], cols.text s = some s) :
    ∃ row, (T.after D float cols (.enqueueAttempt worldId ownerId key mode uuid, t)).attempts.get? ("attempt:" ++ uuid.hex) =
      some row ∧ row.worldId = worldId ∧ row.ownerId = ownerId ∧ row.status = .queued ∧ row.leaseGeneration = 0 := by
  have hw := hT.worlds worldId world hworld
  simp only [List.forall_mem_cons, List.not_mem_nil, false_implies, implies_true, and_true] at hcols
  obtain ⟨hownerText, hkeyText, hworldText, hidText⟩ := hcols
  have hunder : T.attemptUnder ownerId key = none := by rw [attemptUnder, hfirst, List.find?_nil]
  have hrows : T.worldRows worldId ownerId = [] := by rw [worldRows, hfirst, List.filter_nil]
  have habsent : T.attempts.get? ("attempt:" ++ uuid.hex) = none := by rw [Dict.get?, hfirst, Entries.lookup_nil]
  have hadm := newAttempt_admitted hkey hw uuid 1 ⟨le_refl 1, hw.maxAttempts.1⟩ ownerId attemptMode none t
  generalize hrow : ({ worldId, ownerId, attemptNumber := 1, status := .queued, attemptMode
                       worldFingerprint := world.worldFingerprint, judgeVersion := world.judgeVersion
                       expectedCheckCount := world.checks.length, previousAttemptId := none
                       attemptIdempotencyKey := key, createdAt := t } : AttemptRow) = row at hadm
  have hinsert : T.insertAttempt ("attempt:" ++ uuid.hex) row =
      .ok { T with attempts := T.attempts.set ("attempt:" ++ uuid.hex) row } := by
    subst hrow
    rw [insertAttempt_eq hT hadm hunder hworld howner (by rw [hrows]; rfl), if_neg (by simp [Dict.contains, habsent])]
  have hkept : Consistent cols { T with attempts := T.attempts.set ("attempt:" ++ uuid.hex) row } := by
    subst hrow
    exact hT.append habsent hidText hadm ⟨by simp, rfl, fun _ => rfl, fun _ => rfl, hownerText, by simp⟩ hworld howner rfl
      (by rw [hrows]; rfl)
  have hstatus := (updateStatus_ok hkept hworld howner .running t).1
  have hget := Dict.get?_set_self T.attempts ("attempt:" ++ uuid.hex) row
  have howned : row.ownerId = ownerId := hrow ▸ rfl
  have henqueue : T.enqueueAttempt cols worldId ownerId key mode uuid t =
      .ok (row.attempt ("attempt:" ++ uuid.hex), { T with
        worlds := T.worlds.set worldId { world with status := .running, updatedAt := t }
        attempts := T.attempts.set ("attempt:" ++ uuid.hex) row }) := by
    unfold enqueueAttempt
    rw [if_neg (by simp [hkey]), hmode]
    dsimp only
    rw [held_some hownerText, ok_bind, held_some hkeyText, ok_bind, hunder]
    dsimp only
    rw [held_some hworldText, ok_bind, fetchWorld_ok hworld howner, ok_bind, hrows]
    simp only [WorldRow.world, List.insertionSort_nil, List.any_nil, List.length_nil, List.head?_nil, Option.map_none,
      Nat.zero_add]
    rw [if_neg (by simp [hopen]), if_neg Bool.false_ne_true, if_neg (by have := hw.maxAttempts.1; omega), held_some hidText,
      ok_bind, hrow, hinsert, ok_bind, hstatus, ok_bind, fetchAttempt_ok hget howned, ok_bind]
  refine ⟨row, ?_, by subst hrow; exact ⟨rfl, rfl, rfl, rfl⟩⟩
  simp only [PostgresTestWorldStore.after, PostgresTestWorldStore.call, wrap, henqueue, Except.map, hget]

/-- A queued attempt is leased to the worker that claims it. -/
theorem claimAttempt_leases (D : Digests) (float : ℚ → String) (hT : Consistent cols T) {attemptId workerId : String}
    {row : AttemptRow} {leaseSeconds : Int} {t expiresAt now : Time} (hrow : T.attempts.get? attemptId = some row)
    (hqueued : row.status = .queued)
    (hgeneration : bigint ((row.leaseGeneration : Int) + 1) = some ((row.leaseGeneration : Int) + 1))
    (hlease : workerId ≠ "" ∧ 0 < leaseSeconds) (hworker : cols.text workerId = some workerId)
    (hexpires : cols.timestamptz (t + leaseSeconds) = some expiresAt) (hnow : cols.timestamptz t = some now) :
    (T.after D float cols (.claimAttempt attemptId workerId leaseSeconds, t)).Leases
      { attemptId, worldId := row.worldId, ownerId := row.ownerId, workerId
        generation := row.leaseGeneration + 1, expiresAt } := by
  have hs := hT.sound attemptId row hrow
  have hactive : row.status.active = true := by rw [hqueued]; rfl
  have hunleased : row.leaseOwner.isSome = false :=
    Bool.eq_false_of_not_eq_true fun h => by simpa [hqueued] using hs.leased.mp h
  have hexpired : expired row now = true := by
    have hnone : row.leaseExpiresAt = none := by simpa [hunleased] using hs.expires
    rw [expired, hnone, Option.all_none]
  have hadm : (row.claimed workerId expiresAt now).Admitted attemptId :=
    (hT.attempts attemptId row hrow).claimed hactive workerId
  obtain ⟨world, hworld, howner, -⟩ := hT.parent attemptId row hrow
  have hstatus := (updateStatus_ok (hT.update hrow (row.sameAttempt_claimed workerId expiresAt now) hadm
    (hs.claimed hactive hworker)) hworld howner .running now).1
  have hclaim : T.claimAttempt cols attemptId workerId leaseSeconds t =
      .ok (some { attemptId, worldId := row.worldId, ownerId := row.ownerId, workerId
                  generation := row.leaseGeneration + 1, expiresAt },
        { T with
          worlds := T.worlds.set row.worldId { world with status := .running, updatedAt := now }
          attempts := T.attempts.set attemptId (row.claimed workerId expiresAt now) }) := by
    unfold claimAttempt
    rw [if_neg (by simp [hlease.1, hlease.2]), held_some hworker, ok_bind, held_some hexpires, ok_bind, held_some hnow, ok_bind,
      held_some (hT.key attemptId row hrow), ok_bind, hrow]
    dsimp only
    rw [if_neg (by simp [hqueued, hexpired]), held_some hgeneration, ok_bind, putAttempt_ok hadm, ok_bind, hstatus, ok_bind]
  refine ⟨row.claimed workerId expiresAt now, ?_, ?_⟩
  · simp only [PostgresTestWorldStore.after, PostgresTestWorldStore.call, wrap, hclaim, Except.map]
    exact Dict.get?_set_self _ _ _
  · simp [leasedTo, AttemptRow.claimed]

/-- The release of a lease that is held raises. -/
theorem call_releaseAttempt (D : Digests) (float : ℚ → String) (t : Time) {cols : Columns} {T : PostgresTestWorldStore}
    (hT : Consistent cols T) {lease : TestWorldLease} (hheld : T.Leases lease) :
    T.call D float cols t (.releaseAttempt lease) = .error .checkViolation := by
  simp only [PostgresTestWorldStore.call, wrap, (releaseAttempt_cases hT lease).1 hheld]
  rfl

/-- After any sequence of calls, the next one breaks a `CHECK` constraint exactly when it
releases a lease that is held, and it inserts a duplicate key only under an id in use. -/
theorem check_violated_iff (D : Digests) (float : ℚ → String) (cols : Columns)
    (l : List (Call × Time)) (c : Call) (t : Time) :
    ((history D float cols l).call D float cols t c = .error .checkViolation ↔
      ∃ lease, c = .releaseAttempt lease ∧ (history D float cols l).Leases lease) ∧
    ((history D float cols l).call D float cols t c = .error .keyViolation →
      c.Collides (history D float cols l)) := by
  have hT := history_consistent D float cols l
  generalize history D float cols l = T at hT ⊢
  by_cases hc : ∀ lease, c = .releaseAttempt lease → ¬T.Leases lease
  · have h : Yields (fun r => Consistent cols r.2) (Harmless (c.Collides T))
        (T.call D float cols t c) := call_lawful hT c t hc
    refine ⟨⟨fun he => ?_, fun ⟨lease, hr, hl⟩ => absurd hl (hc lease hr)⟩, fun he => ?_⟩
    · rw [he] at h
      exact absurd rfl h.1
    · rw [he] at h
      exact h.2 rfl
  · simp only [not_forall, not_not] at hc
    obtain ⟨lease, rfl, hheld⟩ := hc
    rw [call_releaseAttempt D float t hT hheld]
    exact ⟨⟨fun _ => ⟨lease, rfl, hheld⟩, fun _ => rfl⟩, by simp⟩

/-! ## A released lease -/

/-- Digests that ignore what they are taken of. -/
def zeroDigests : Digests where
  worldFingerprint _ := "0000000000000000000000000000000000000000000000000000000000000000"
  judgeVersion _ := "0000000000000000000000000000000000000000000000000000000000000000"
  fingerprint_hex _ := by decide +kernel
  judge_hex _ := by decide +kernel

/-- Columns that hold every value. -/
def plainColumns : Columns where
  text := some
  jsonbChecks := some
  jsonbFeedback := some
  timestamptz := some
  text_exact _ _ h := (Option.some.inj h).symm
  checks_length _ _ h := congrArg List.length (Option.some.inj h).symm
  feedback_length _ _ h := congrArg List.length (Option.some.inj h).symm

def sampleUuid : Uuid :=
  ⟨"00000000000000000000000000000001", by decide +kernel, by decide +kernel⟩

def sampleCheck : TestCheck :=
  { name := "unit tests", command := ["pytest"], timeoutSeconds := 60, valid := by decide +kernel }

def sampleDefinition : WorldDefinition :=
  { name := "Practice", objective := "Repair.", repositoryUrl := "https://github.com/example/project.git"
    commit := "aaaaaaaaaaaaaaaaaaaaaaaaaaaaaaaaaaaaaaaa", checks := [sampleCheck], maxAttempts := 3 }

/-- A world is created, an attempt queued at 100 and claimed at 110 for a minute. -/
def claimedHistory : List (Call × Time) :=
  [(.createWorld "owner" "world" sampleDefinition sampleUuid, 100),
   (.enqueueAttempt "world:00000000000000000000000000000001" "owner" "attempt-1" "retry" sampleUuid, 100),
   (.claimAttempt "attempt:00000000000000000000000000000001" "core-1" 60, 110)]

/-- The lease the claim returns. -/
def claimedLease : TestWorldLease :=
  { attemptId := "attempt:00000000000000000000000000000001"
    worldId := "world:00000000000000000000000000000001", ownerId := "owner", workerId := "core-1"
    generation := 1, expiresAt := 170 }

/-- The call broke a `CHECK` constraint. -/
def broke {α : Type} : Except TestWorldFault α → Bool
  | .error .checkViolation => true
  | _ => false

theorem claimed_leases : (history zeroDigests (fun _ => "0") plainColumns claimedHistory).Leases claimedLease := by
  have hcreated : ((history zeroDigests (fun _ => "0") plainColumns (claimedHistory.take 1)).attempts.entries.isEmpty &&
      ((history zeroDigests (fun _ => "0") plainColumns (claimedHistory.take 1)).worlds.get?
        "world:00000000000000000000000000000001").any fun world => world.ownerId == "owner" && !world.status.closed) = true := by
    decide +kernel
  have hT := history_consistent zeroDigests (fun _ => "0") plainColumns (claimedHistory.take 1)
  have hsplit : claimedHistory = claimedHistory.take 1 ++
      [(.enqueueAttempt "world:00000000000000000000000000000001" "owner" "attempt-1" "retry" sampleUuid, 100),
        (.claimAttempt "attempt:00000000000000000000000000000001" "core-1" 60, 110)] := rfl
  rw [hsplit, history_append, List.foldl_cons, List.foldl_cons, List.foldl_nil]
  generalize history zeroDigests (fun _ => "0") plainColumns (claimedHistory.take 1) = T at hcreated hT ⊢
  rw [Bool.and_eq_true, List.isEmpty_iff, Option.any_eq_true] at hcreated
  obtain ⟨hfirst, world, hworld, hopen⟩ := hcreated
  rw [Bool.and_eq_true, beq_iff_eq, Bool.not_eq_true'] at hopen
  obtain ⟨row, hrow, hid, howner, hqueued, hgeneration⟩ := enqueueAttempt_queues zeroDigests (fun _ => "0") hT "attempt-1"
    "retry" sampleUuid 100 hfirst hworld hopen.1 hopen.2 (by decide +kernel) rfl fun _ _ => rfl
  have hattempt : "attempt:" ++ sampleUuid.hex = "attempt:00000000000000000000000000000001" := by decide +kernel
  have hbigint : bigint ((row.leaseGeneration : Int) + 1) = some ((row.leaseGeneration : Int) + 1) := by
    rw [hgeneration]
    norm_num [bigint]
  have hexpires : plainColumns.timestamptz (110 + ((60 : Int) : Time)) = some 170 := congrArg some (by norm_num)
  have hleased := claimAttempt_leases zeroDigests (fun _ => "0") (after_consistent hT _) (hattempt ▸ hrow) hqueued hbigint
    ⟨(by decide : "core-1" ≠ ""), by decide⟩ rfl hexpires rfl
  rw [hid, howner, hgeneration] at hleased
  exact hleased

/-- Releasing the lease that was just claimed breaks the constraint on running attempts. -/
theorem release_breaks_check : ¬∀ (D : Digests) (float : ℚ → String) (cols : Columns)
    (l : List (Call × Time)) (c : Call) (t : Time),
    broke ((history D float cols l).call D float cols t c) = false := by
  intro h
  have hraises := call_releaseAttempt zeroDigests (fun _ => "0") 120
    (history_consistent zeroDigests (fun _ => "0") plainColumns claimedHistory) claimed_leases
  have hrun := h zeroDigests (fun _ => "0") plainColumns claimedHistory (.releaseAttempt claimedLease) 120
  rw [hraises] at hrun
  cases hrun

end LilTweak.Worlds
