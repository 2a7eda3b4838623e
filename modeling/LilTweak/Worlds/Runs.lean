import LilTweak.Worlds.Agreement

/-!
# The two stores over whole runs

Calls that fit the tables they meet get the same answers from both stores, whatever their
order and their clocks, and both stores then show the same worlds and attempts. The two
exceptions are the release of a lease that is held, which the tables refuse, and a failure
reported under a lease that was renewed since, which only the tables accept.
-/

namespace LilTweak.Worlds

open LilTweak.Lib LilTweak.Core LilTweak.Store PostgresTestWorldStore

variable {D : Digests} {float : ℚ → String} {cols : Columns} {s : MemoryTestWorldStore}
  {T : PostgresTestWorldStore} {t : Time}

/-- The database holds the values of the call as they are, its new id is not in use, and the
call neither releases a held lease nor fails an attempt under an outdated one. -/
def Call.Fits (float : ℚ → String) (cols : Columns) (T : PostgresTestWorldStore) (t : Time) : Call → Prop
  | .createWorld owner key d uuid =>
    cols.text owner = some owner ∧ cols.text key = some key ∧
      cols.text (strip d.name) = some (strip d.name) ∧
      cols.text (strip d.objective) = some (strip d.objective) ∧
      cols.text d.repositoryUrl = some d.repositoryUrl ∧ cols.jsonbChecks d.checks = some d.checks ∧
      cols.text ("world:" ++ uuid.hex) = some ("world:" ++ uuid.hex) ∧
      T.worlds.get? ("world:" ++ uuid.hex) = none
  | .enqueueAttempt worldId owner key _ uuid =>
    cols.text worldId = some worldId ∧ cols.text owner = some owner ∧ cols.text key = some key ∧
      cols.text ("attempt:" ++ uuid.hex) = some ("attempt:" ++ uuid.hex) ∧
      T.attempts.get? ("attempt:" ++ uuid.hex) = none
  | .reconcileActiveAttempts _ => cols.timestamptz t = some t
  | .claimAttempt attemptId worker seconds =>
    cols.text attemptId = some attemptId ∧ cols.text worker = some worker ∧
      cols.timestamptz (t + seconds) = some (t + seconds) ∧ cols.timestamptz t = some t ∧
      ∀ row, T.attempts.get? attemptId = some row →
        bigint (row.leaseGeneration + 1) = some (row.leaseGeneration + 1)
  | .renewAttempt lease seconds =>
    LeaseHeld cols lease ∧ cols.timestamptz (t + seconds) = some (t + seconds) ∧
      cols.timestamptz t = some t
  | .releaseAttempt lease => LeaseHeld cols lease ∧ ¬T.Leases lease
  | .completeAttempt lease c => LeaseHeld cols lease ∧ cols.timestamptz t = some t ∧
      ∀ r, c.validate float = .ok r → resultColumns cols r = .ok r
  | .failAttempt lease c => LeaseHeld cols lease ∧ cols.timestamptz t = some t ∧
      (∀ e, c.validate float = .ok e →
        cols.jsonbFeedback e.feedback = some e.feedback ∧ cols.text e.summary = some e.summary) ∧
      ¬T.Outdated lease

theorem together_wrap {α : Type} {f : α → Answer}
    {x : Except TestWorldFault (α × MemoryTestWorldStore)}
    {y : Except TestWorldFault (α × PostgresTestWorldStore)} (h : Together (Same cols) x y) :
    Together (Same cols) (wrap f x) (wrap f y) :=
  h.map fun _ _ hab => ⟨congrArg f hab.1, hab.2⟩

/-- A call that fits gets the same answer from both stores and leaves them in agreement. -/
theorem call_agrees (h : Agrees cols s T) (c : Call) (hc : c.Fits float cols T t) :
    Together (Same cols) (s.call D float t c) (T.call D float cols t c) := by
  cases c with
  | createWorld owner key d uuid =>
    obtain ⟨ho, hk, hn, hobj, hurl, hchecks, hid, hnew⟩ := hc
    exact together_wrap (createWorld_agrees h ho hk hn hobj hurl hchecks hid hnew)
  | enqueueAttempt worldId owner key mode uuid =>
    obtain ⟨hw, ho, hk, hid, hnew⟩ := hc
    exact together_wrap (enqueueAttempt_agrees h hw ho hk hid hnew)
  | reconcileActiveAttempts limit => exact together_wrap (reconcileActiveAttempts_agrees h hc)
  | claimAttempt attemptId worker seconds =>
    obtain ⟨hid, hworker, he, ht, hgen⟩ := hc
    exact together_wrap (claimAttempt_agrees h hid hworker he ht hgen)
  | renewAttempt lease seconds =>
    obtain ⟨hl, he, ht⟩ := hc
    exact together_wrap (renewAttempt_agrees h hl he ht)
  | releaseAttempt lease =>
    obtain ⟨⟨ha, -, ho, hw⟩, hfree⟩ := hc
    exact together_wrap (f := fun _ => Answer.unit) (releaseAttempt_agrees h ha ho hw hfree)
  | completeAttempt lease c =>
    obtain ⟨hl, ht, hr⟩ := hc
    exact together_wrap (completeAttempt_agrees h hl ht hr)
  | failAttempt lease c =>
    obtain ⟨hl, ht, hr, hcurrent⟩ := hc
    exact together_wrap (failAttempt_agrees h hl ht hr hcurrent)

/-! ## Runs -/

/-- The in-memory store after a call. -/
def MemoryTestWorldStore.after (D : Digests) (float : ℚ → String) (s : MemoryTestWorldStore)
    (c : Call × Time) : MemoryTestWorldStore :=
  match s.call D float c.2 c.1 with
  | .ok r => r.2
  | .error _ => s

/-- The in-memory store after a sequence of calls on an empty one. -/
def MemoryTestWorldStore.history (D : Digests) (float : ℚ → String) (l : List (Call × Time)) :
    MemoryTestWorldStore := l.foldl (after D float) {}

/-- Every call of the sequence fits the tables that the calls before it leave. -/
def FitsAll (D : Digests) (float : ℚ → String) (cols : Columns) (l : List (Call × Time)) : Prop :=
  ∀ (k : Nat) (c : Call × Time), l[k]? = some c →
    c.1.Fits float cols (PostgresTestWorldStore.history D float cols (l.take k)) c.2

theorem FitsAll.append {l : List (Call × Time)} {c : Call × Time}
    (h : FitsAll D float cols (l ++ [c])) : FitsAll D float cols l ∧
      c.1.Fits float cols (PostgresTestWorldStore.history D float cols l) c.2 := by
  constructor
  · intro k b hb
    have hk : k < l.length := (List.getElem?_eq_some_iff.mp hb).1
    have hfit := h k b (by rw [List.getElem?_append_left hk, hb])
    rwa [List.take_append_of_le_length hk.le] at hfit
  · have hfit := h l.length c (by simp)
    rwa [List.take_left'] at hfit
    rfl

theorem FitsAll.take {l : List (Call × Time)} (h : FitsAll D float cols l) (k : Nat) :
    FitsAll D float cols (l.take k) := by
  intro j c hc
  rw [List.getElem?_take] at hc
  split at hc
  · next hj =>
    have hfit := h j c hc
    rwa [List.take_take, min_eq_left hj.le]
  · cases hc

/-- One call keeps the agreement. -/
theorem after_agrees (h : Agrees cols s T) {c : Call × Time} (hc : c.1.Fits float cols T c.2) :
    Agrees cols (s.after D float c) (T.after D float cols c) := by
  have hstep := call_agrees (D := D) h c.1 hc
  rw [MemoryTestWorldStore.after, PostgresTestWorldStore.after]
  cases hs : s.call D float c.2 c.1 <;> cases hT : T.call D float cols c.2 c.1 <;>
    rw [hs, hT] at hstep
  · exact h
  · exact hstep.elim
  · exact hstep.elim
  · exact hstep.2

/-- The stores agree after every run whose calls fit. -/
theorem history_agrees (l : List (Call × Time)) (hl : FitsAll D float cols l) :
    Agrees cols (MemoryTestWorldStore.history D float l)
      (PostgresTestWorldStore.history D float cols l) := by
  induction l using List.reverseRecOn with
  | nil => exact agrees_empty
  | append_singleton l c ih =>
    obtain ⟨hl, hc⟩ := hl.append
    have h := after_agrees (D := D) (ih hl) hc
    simpa only [MemoryTestWorldStore.history, PostgresTestWorldStore.history, List.foldl_append,
      List.foldl_cons, List.foldl_nil] using h

theorem getWorld_agrees (h : Agrees cols s T) {worldId ownerId : String}
    (hw : cols.text worldId = some worldId) (ho : cols.text ownerId = some ownerId) :
    T.getWorld cols worldId ownerId = .ok (s.getWorld worldId ownerId) := by
  simp only [getWorld, held_some hw, held_some ho, ok_bind, MemoryTestWorldStore.getWorld,
    MemoryTestWorldStore.ownedWorld, h.world_get?]
  cases T.worlds.get? worldId with
  | none => rfl
  | some row => simp only [Option.map_some, Option.filter_some, WorldRow.world]; split <;> rfl

/-- The attempts of a world come out of both stores in the same order. -/
theorem listAttempts_agrees (h : Agrees cols s T) {worldId ownerId : String}
    (hw : cols.text worldId = some worldId) (ho : cols.text ownerId = some ownerId) :
    T.listAttempts cols worldId ownerId = s.listAttempts worldId ownerId := by
  simp only [listAttempts, held_some hw, held_some ho, ok_bind, MemoryTestWorldStore.listAttempts,
    MemoryTestWorldStore.ownedWorld, h.world_get?, fetchWorld]
  cases hrow : T.worlds.get? worldId with
  | none => rfl
  | some row =>
    by_cases howner : row.ownerId = ownerId
    · have hnum : (T.worldRows worldId ownerId).map (fun e => e.2.attemptNumber) =
          List.range' 1 (T.worldRows worldId ownerId).length := by
        rw [h.consistent.numbered]
      have howned : (row.world worldId).ownerId == ownerId := by simpa [WorldRow.world] using howner
      simp only [if_pos howner, ok_bind, Option.map_some, Option.filter_some, howned, if_true,
        h.worldAttempts_eq hrow howner, insertionSort_numberUp _ 1 hnum]
    · have hother : ((row.world worldId).ownerId == ownerId) = false := by
        simpa [WorldRow.world] using howner
      simp only [if_neg howner, Option.map_some, Option.filter_some, hother]
      rfl

/-- The claimed lease is renewed at 120 for another minute. -/
def renewedHistory : List (Call × Time) := claimedHistory ++ [(.renewAttempt claimedLease 60, 120)]

theorem queuedHistory_fits : FitsAll zeroDigests (fun _ => "0") plainColumns (renewedHistory.take 2) := by
  intro k c hc
  rcases k with _ | _ | k
  · obtain rfl := Option.some.inj hc
    exact ⟨rfl, rfl, rfl, rfl, rfl, rfl, rfl, by decide +kernel⟩
  · obtain rfl := Option.some.inj hc
    exact ⟨rfl, rfl, rfl, rfl, by decide +kernel⟩
  · cases hc

theorem renewedHistory_fits : FitsAll zeroDigests (fun _ => "0") plainColumns renewedHistory := by
  intro k c hc
  rcases k with _ | _ | _ | _ | k
  · exact queuedHistory_fits 0 c hc
  · exact queuedHistory_fits 1 c hc
  · obtain rfl := Option.some.inj hc
    refine ⟨rfl, rfl, rfl, rfl, fun row hrow => ?_⟩
    -- the generation is the one the in-memory store counts, which is quicker to run
    have hagree := history_agrees _ queuedHistory_fits
    have hgen := hagree.generations "attempt:00000000000000000000000000000001"
    have hzero : ((MemoryTestWorldStore.history zeroDigests (fun _ => "0") (renewedHistory.take 2)).generations.get?
        "attempt:00000000000000000000000000000001").getD 0 = 0 := by decide +kernel
    rw [hrow, Option.map_some, Option.getD_some, hzero] at hgen
    rw [← hgen]
    decide +kernel
  · obtain rfl := Option.some.inj hc
    exact ⟨⟨rfl, rfl, rfl, rfl⟩, rfl, rfl⟩
  · cases hc

/-- The call was carried out. -/
def accepted {α : Type} : Except TestWorldFault α → Bool
  | .ok _ => true
  | .error _ => false

/-- The tables do not look at the expiry of the lease they are handed. -/
theorem failAttempt_expiry (T : PostgresTestWorldStore) (lease : TestWorldLease) (expiresAt : Time) (c : FailCall) (t : Time) :
    T.failAttempt float cols { lease with expiresAt } c t = T.failAttempt float cols lease c t := by
  unfold failAttempt leaseColumns
  simp only [bind_assoc, ok_bind, leasedRow, leasedTo]
  rfl

/-- The lease a row stands for expires with the row. -/
theorem AttemptRow.lease_expiry {id : String} {r : AttemptRow} {lease : TestWorldLease} (h : r.lease id = some lease) :
    r.leaseExpiresAt = some lease.expiresAt := by
  unfold AttemptRow.lease at h
  split at h
  · next hexpires =>
    obtain rfl := Option.some.inj h
    exact hexpires
  · cases h

/-- Where the in-memory store takes the renewed lease, the tables still take the claimed one. -/
theorem fail_accepted (h : Agrees cols s T) {lease current : TestWorldLease} {c : FailCall} {t : Time}
    (hclaim : s.claims.get? current.attemptId = some current) (hsame : current = { lease with expiresAt := current.expiresAt })
    (hl : LeaseHeld cols current) (ht : cols.timestamptz t = some t)
    (hr : ∀ e, c.validate float = .ok e →
      cols.jsonbFeedback e.feedback = some e.feedback ∧ cols.text e.summary = some e.summary)
    (haccepted : accepted (s.call D float t (.failAttempt current c)) = true) :
    accepted (T.call D float cols t (.failAttempt lease c)) = true := by
  have hcurrent : ¬T.Outdated current := by
    rintro ⟨row, hrow, _, _, hexpired⟩
    rw [h.claims, hrow, Option.bind_some] at hclaim
    exact hexpired (AttemptRow.lease_expiry hclaim)
  have htogether := call_agrees (D := D) h (.failAttempt current c) ⟨hl, ht, hr, hcurrent⟩
  have hcall : T.call D float cols t (.failAttempt current c) = T.call D float cols t (.failAttempt lease c) := by
    rw [hsame]
    simp only [PostgresTestWorldStore.call, failAttempt_expiry]
  rw [← hcall]
  cases hs : s.call D float t (.failAttempt current c) with
  | error e =>
    rw [hs] at haccepted
    cases haccepted
  | ok r =>
    rw [hs] at htogether
    cases hT : T.call D float cols t (.failAttempt current c) with
    | error e =>
      rw [hT] at htogether
      exact htogether.elim
    | ok r' => rfl

/-- The lease after its renewal. -/
def renewedLease : TestWorldLease := { claimedLease with expiresAt := 180 }

end LilTweak.Worlds
