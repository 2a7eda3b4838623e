import LilTweak.Worlds.Runs

/-!
# The challenge stays

No call on the in-memory store changes what a world asks for or what an attempt answers
to, as long as new records get fresh ids. The rules for one write come first, then one
lemma for each operation, and `foldl_keeps` for whole sequences of calls.
-/

namespace LilTweak.Worlds

open LilTweak.Lib LilTweak.Core LilTweak.Store

/-- What a world asks for. -/
def TestWorld.challenge (w : TestWorld) : String × List TestCheck × String × String :=
  (w.id, w.checks, w.fingerprint, w.judgeVersion)

/-- What an attempt answers to. -/
def TestWorldAttempt.challenge (a : TestWorldAttempt) : String × String × String × String :=
  (a.id, a.worldId, a.worldFingerprint, a.judgeVersion)

namespace MemoryTestWorldStore

variable {D : Digests} {float : ℚ → String} {s s' u : MemoryTestWorldStore} {t : Time}

/-- Worlds and attempts are stored under their ids, and an attempt answers to its world. -/
structure Tied (s : MemoryTestWorldStore) : Prop where
  world : ∀ id w, s.worlds.get? id = some w → w.id = id
  attempt : ∀ id a, s.attempts.get? id = some a → a.id = id ∧ ∃ w, s.worlds.get? a.worldId = some w ∧
    w.fingerprint = a.worldFingerprint ∧ w.judgeVersion = a.judgeVersion

/-- Every world and every attempt is still there with its challenge. -/
structure Extends (s s' : MemoryTestWorldStore) : Prop where
  world : ∀ id w, s.worlds.get? id = some w →
    ∃ w', s'.worlds.get? id = some w' ∧ w'.challenge = w.challenge
  attempt : ∀ id a, s.attempts.get? id = some a →
    ∃ a', s'.attempts.get? id = some a' ∧ a'.challenge = a.challenge

/-- The store stays tied and loses nothing. -/
def Keeps (s s' : MemoryTestWorldStore) : Prop := Tied s' ∧ Extends s s'

theorem tied_empty : Tied {} := by
  constructor <;> intro id x h <;> cases h

theorem Keeps.refl (h : Tied s) : Keeps s s :=
  ⟨h, fun _ w hw => ⟨w, hw, rfl⟩, fun _ a ha => ⟨a, ha, rfl⟩⟩

theorem Extends.trans (h : Extends s s') (h' : Extends s' u) : Extends s u where
  world id w hw := by
    obtain ⟨w', hw', he⟩ := h.world id w hw
    obtain ⟨w'', hw'', he'⟩ := h'.world id w' hw'
    exact ⟨w'', hw'', he'.trans he⟩
  attempt id a ha := by
    obtain ⟨a', ha', he⟩ := h.attempt id a ha
    obtain ⟨a'', ha'', he'⟩ := h'.attempt id a' ha'
    exact ⟨a'', ha'', he'.trans he⟩

theorem Keeps.trans (h : Keeps s s') (h' : Keeps s' u) : Keeps s u := ⟨h'.1, h.2.trans h'.2⟩

/-- The dicts the challenges live in are unchanged. -/
theorem Keeps.same (h : Tied s) (hw : s'.worlds = s.worlds) (ha : s'.attempts = s.attempts) :
    Keeps s s' := by
  obtain ⟨worlds, attempts, _, _, _, _, _⟩ := s'
  obtain rfl : worlds = s.worlds := hw
  obtain rfl : attempts = s.attempts := ha
  exact ⟨⟨h.world, h.attempt⟩, fun _ w hw => ⟨w, hw, rfl⟩, fun _ a ha => ⟨a, ha, rfl⟩⟩

/-- Overwriting a world with one of the same challenge. -/
theorem Keeps.setWorld (h : Tied s) {id : String} {w w' : TestWorld} (hw : s.worlds.get? id = some w)
    (hc : w'.challenge = w.challenge) : Keeps s { s with worlds := s.worlds.set id w' } := by
  have hfields := hc
  simp only [TestWorld.challenge, Prod.mk.injEq] at hfields
  obtain ⟨hid, -, hfp, hjv⟩ := hfields
  refine ⟨⟨fun k v hv => ?_, fun k a ha => ?_⟩, fun k v hv => ?_, fun _ a ha => ⟨a, ha, rfl⟩⟩
  · by_cases hk : k = id
    · subst hk
      rw [Dict.get?_set_self, Option.some.injEq] at hv
      rw [← hv, hid]
      exact h.world k w hw
    · rw [Dict.get?_set_ne _ _ hk] at hv
      exact h.world k v hv
  · obtain ⟨haid, v, hv, hvfp, hvjv⟩ := h.attempt k a ha
    refine ⟨haid, ?_⟩
    by_cases hk : a.worldId = id
    · obtain rfl : v = w := Option.some.inj (hv.symm.trans (hk ▸ hw))
      refine ⟨w', ?_, hfp.trans hvfp, hjv.trans hvjv⟩
      rw [hk]
      exact Dict.get?_set_self _ _ _
    · exact ⟨v, (Dict.get?_set_ne _ _ hk).trans hv, hvfp, hvjv⟩
  · by_cases hk : k = id
    · subst hk
      obtain rfl : v = w := Option.some.inj (hv.symm.trans hw)
      exact ⟨w', Dict.get?_set_self _ _ _, hc⟩
    · exact ⟨v, (Dict.get?_set_ne _ _ hk).trans hv, rfl⟩

/-- Overwriting an attempt with one of the same challenge. -/
theorem Keeps.setAttempt (h : Tied s) {id : String} {a a' : TestWorldAttempt}
    (ha : s.attempts.get? id = some a) (hc : a'.challenge = a.challenge) :
    Keeps s { s with attempts := s.attempts.set id a' } := by
  have hfields := hc
  simp only [TestWorldAttempt.challenge, Prod.mk.injEq] at hfields
  obtain ⟨hid, hworld, hfp, hjv⟩ := hfields
  refine ⟨⟨h.world, fun k b hb => ?_⟩, fun _ w hw => ⟨w, hw, rfl⟩, fun k b hb => ?_⟩
  · by_cases hk : k = id
    · subst hk
      rw [Dict.get?_set_self, Option.some.injEq] at hb
      rw [← hb, hid, hworld, hfp, hjv]
      exact h.attempt k a ha
    · rw [Dict.get?_set_ne _ _ hk] at hb
      exact h.attempt k b hb
  · by_cases hk : k = id
    · subst hk
      obtain rfl : b = a := Option.some.inj (hb.symm.trans ha)
      exact ⟨a', Dict.get?_set_self _ _ _, hc⟩
    · exact ⟨b, (Dict.get?_set_ne _ _ hk).trans hb, rfl⟩

/-- A new attempt that answers to a stored world. -/
theorem Keeps.addAttempt (h : Tied s) {a : TestWorldAttempt} {w : TestWorld}
    (hnew : s.attempts.get? a.id = none) (hw : s.worlds.get? a.worldId = some w)
    (hfp : w.fingerprint = a.worldFingerprint) (hjv : w.judgeVersion = a.judgeVersion) :
    Keeps s { s with attempts := s.attempts.set a.id a } := by
  refine ⟨⟨h.world, fun k b hb => ?_⟩, fun _ w hw => ⟨w, hw, rfl⟩, fun k b hb => ?_⟩
  · by_cases hk : k = a.id
    · subst hk
      rw [Dict.get?_set_self, Option.some.injEq] at hb
      subst hb
      exact ⟨rfl, w, hw, hfp, hjv⟩
    · rw [Dict.get?_set_ne _ _ hk] at hb
      exact h.attempt k b hb
  · have hk : k ≠ a.id := by
      rintro rfl
      rw [hnew] at hb
      cases hb
    exact ⟨b, (Dict.get?_set_ne _ _ hk).trans hb, rfl⟩

/-- Overwriting the status of a world on the way. -/
theorem Keeps.setStatus (h : Keeps s s') {w : TestWorld} (hw : s'.worlds.get? w.id = some w)
    (status : WorldStatus) : Keeps s (s'.setStatus w status t) :=
  h.trans (Keeps.setWorld h.1 hw rfl)

/-- An attempt and the status of its world are overwritten. -/
theorem Keeps.setBoth (h : Tied s) {id : String} {a a' : TestWorldAttempt} {w : TestWorld}
    (ha : s.attempts.get? id = some a) (hc : a'.challenge = a.challenge)
    (hw : s.worlds.get? a.worldId = some w) (status : WorldStatus)
    (claims : Dict String TestWorldLease) (generations : Dict String Nat) :
    Keeps s (({ s with attempts := s.attempts.set id a', claims, generations } :
      MemoryTestWorldStore).setStatus w status t) := by
  have hattempt := Keeps.setAttempt h ha hc
  have hw' : s.worlds.get? w.id = some w := by rwa [h.world _ _ hw]
  have hkept : Keeps s { s with attempts := s.attempts.set id a', claims, generations } :=
    hattempt.trans (Keeps.same hattempt.1 rfl rfl)
  exact hkept.setStatus hw' status

theorem item_yields {κ α : Type} [DecidableEq κ] (d : Dict κ α) (k : κ) :
    Yields (fun a => d.get? k = some a) (fun _ => True) (item d k) := by
  unfold item
  cases d.get? k with
  | none => trivial
  | some a => rfl

/-- The id a call would insert is not in use; `uuid.uuid4` promises as much. -/
def Fresh (s : MemoryTestWorldStore) : Call → Prop
  | .createWorld _ _ _ uuid => s.worlds.get? ("world:" ++ uuid.hex) = none
  | .enqueueAttempt _ _ _ _ uuid => s.attempts.get? ("attempt:" ++ uuid.hex) = none
  | _ => True

theorem createWorld_keeps (h : Tied s) {owner key : String} {d : WorldDefinition} {uuid : Uuid}
    (hnew : s.worlds.get? ("world:" ++ uuid.hex) = none) :
    Yields (fun r => Keeps s r.2) (fun _ => True) (s.createWorld D owner key d uuid t) := by
  refine Yields.ite (fun _ => trivial) fun _ => ?_
  dsimp only
  split
  · refine Yields.ite (fun _ => trivial) fun _ => ?_
    exact Yields.map ((item_yields _ _).weaken (fun _ _ => Keeps.refl h) fun _ _ => trivial)
  · refine ⟨⟨fun k v hv => ?_, fun k a ha => ?_⟩, fun k v hv => ?_, fun _ a ha => ⟨a, ha, rfl⟩⟩
    · by_cases hk : k = "world:" ++ uuid.hex
      · subst hk
        rw [Dict.get?_set_self, Option.some.injEq] at hv
        rw [← hv]
      · rw [Dict.get?_set_ne _ _ hk] at hv
        exact h.world k v hv
    · obtain ⟨haid, v, hv, hc⟩ := h.attempt k a ha
      have hk : a.worldId ≠ "world:" ++ uuid.hex := by
        intro hk
        rw [hk, hnew] at hv
        cases hv
      exact ⟨haid, v, (Dict.get?_set_ne _ _ hk).trans hv, hc⟩
    · have hk : k ≠ "world:" ++ uuid.hex := by
        rintro rfl
        rw [hnew] at hv
        cases hv
      exact ⟨v, (Dict.get?_set_ne _ _ hk).trans hv, rfl⟩

theorem enqueueAttempt_keeps (h : Tied s) {worldId owner key mode : String} {uuid : Uuid}
    (hnew : s.attempts.get? ("attempt:" ++ uuid.hex) = none) :
    Yields (fun r => Keeps s r.2) (fun _ => True) (s.enqueueAttempt worldId owner key mode uuid t) := by
  refine Yields.ite (fun _ => trivial) fun _ => ?_
  split
  · trivial
  next attemptMode _ =>
  split
  · refine Yields.ite (fun _ => trivial) fun _ => ?_
    exact Yields.map ((item_yields _ _).weaken (fun _ _ => Keeps.refl h) fun _ _ => trivial)
  · split
    · trivial
    next world howned =>
    have hworld := (Option.filter_eq_some_iff.mp howned).1
    refine Yields.ite (fun _ => trivial) fun _ => ?_
    refine (item_yields _ _).bind fun ids _ => ?_
    cases s.worldAttempts worldId with
    | error e => trivial
    | ok attempts =>
      refine Yields.ite (fun _ => trivial) fun _ => Yields.ite (fun _ => trivial) fun _ => ?_
      have hadd := Keeps.addAttempt h (w := world)
        (a := { id := "attempt:" ++ uuid.hex, worldId, ownerId := owner, number := ids.length + 1
                status := .queued, worldFingerprint := world.fingerprint
                judgeVersion := world.judgeVersion, mode := attemptMode
                previousAttemptId := ids.getLast?, createdAt := t }) hnew hworld rfl rfl
      have hworld' : s.worlds.get? world.id = some world := by rwa [h.world _ _ hworld]
      show Keeps s (MemoryTestWorldStore.setStatus _ world .running t)
      refine Keeps.setStatus ?_ ?_ .running
      · exact hadd.trans (Keeps.same hadd.1 rfl rfl)
      · exact hworld'

/-- A round of the reconciliation, on an attempt that was read before the rounds began. -/
theorem reconcileAttempt_keeps (h : Tied s) {limit : Int} {attempt b : TestWorldAttempt}
    {recovered : List TestWorldAttempt} (hb : s.attempts.get? attempt.id = some b)
    (hc : attempt.challenge = b.challenge) :
    Yields (fun r => Keeps s r.2) (fun _ => True) (reconcileAttempt limit t attempt (recovered, s)) := by
  have hworld : b.worldId = attempt.worldId := by
    simp only [TestWorldAttempt.challenge, Prod.mk.injEq] at hc
    exact hc.2.1.symm
  refine Yields.ite (fun _ => Keeps.refl h) fun _ => Yields.ite (fun _ => Keeps.refl h) fun _ => ?_
  refine (item_yields _ _).bind fun w hw => ?_
  rw [← hworld] at hw
  refine Keeps.setBoth h hb ?_ hw _ _ _
  exact hc

theorem claimAttempt_keeps (h : Tied s) {attemptId workerId : String} {seconds : Int} :
    Yields (fun r => Keeps s r.2) (fun _ => True) (s.claimAttempt attemptId workerId seconds t) := by
  refine Yields.ite (fun _ => trivial) fun _ => ?_
  split
  · exact Keeps.refl h
  next attempt ha =>
  refine Yields.ite (fun _ => Keeps.refl h) fun _ => ?_
  refine (item_yields _ _).bind fun w hw => ?_
  refine Keeps.setBoth h ha ?_ hw _ _ _
  rfl

theorem renewAttempt_keeps (h : Tied s) {lease : TestWorldLease} {seconds : Int} :
    Yields (fun r => Keeps s r.2) (fun _ => True) (s.renewAttempt lease seconds t) := by
  refine Yields.ite (fun _ => trivial) fun _ => ?_
  split
  · trivial
  · exact Yields.ite (fun _ => trivial) fun _ => Keeps.same h rfl rfl

theorem releaseAttempt_keeps (h : Tied s) {lease : TestWorldLease} :
    Yields (fun r => Keeps s r.2) (fun _ => True) (s.releaseAttempt lease) :=
  Yields.ite (fun _ => Keeps.same h rfl rfl) fun _ => Keeps.refl h

theorem leasedAttempt_yields (lease : TestWorldLease) (admits : TestWorldLease → TestWorldAttempt → Bool) :
    Yields (fun a => s.attempts.get? lease.attemptId = some a) (fun _ => True)
      (s.leasedAttempt lease admits) := by
  unfold leasedAttempt
  split
  · next ha => exact Yields.ite (fun _ => ha) fun _ => trivial
  · trivial

theorem completeAttempt_keeps (h : Tied s) {lease : TestWorldLease} {c : CompleteCall} :
    Yields (fun r => Keeps s r.2) (fun _ => True) (s.completeAttempt float lease c t) := by
  unfold completeAttempt
  cases c.validate float with
  | error e => trivial
  | ok result =>
    refine (leasedAttempt_yields lease _).bind fun attempt ha => ?_
    refine (item_yields _ _).bind fun w hw => ?_
    refine Yields.ite (fun _ => trivial) fun _ => Yields.ite (fun _ => trivial) fun _ => ?_
    rw [← (h.attempt _ _ ha).1] at ha
    refine Keeps.setBoth h ha ?_ hw _ _ _
    rfl

theorem failAttempt_keeps (h : Tied s) {lease : TestWorldLease} {c : FailCall} :
    Yields (fun r => Keeps s r.2) (fun _ => True) (s.failAttempt float lease c t) := by
  unfold failAttempt
  cases c.validate float with
  | error e => trivial
  | ok error =>
    refine (leasedAttempt_yields lease _).bind fun attempt ha => ?_
    rw [← (h.attempt _ _ ha).1] at ha
    refine (item_yields _ _).bind fun w hw => ?_
    refine Keeps.setBoth h ha ?_ hw _ _ _
    rfl

theorem mem_values {κ α : Type} [DecidableEq κ] {d : Dict κ α} {a : α} (h : a ∈ d.values) :
    ∃ k, d.get? k = some a := by
  obtain ⟨e, he, rfl⟩ := List.mem_map.mp h
  exact ⟨e.1, (Dict.mem_entries_iff _ _ _).mp he⟩

theorem reconcileActiveAttempts_keeps (h : Tied s) {limit : Int} :
    Yields (fun r => Keeps s r.2) (fun _ => True) (s.reconcileActiveAttempts limit t) := by
  refine Yields.ite (fun _ => trivial) fun _ => ?_
  refine Yields.foldlM
    (P := fun r : List TestWorldAttempt × MemoryTestWorldStore => Keeps s r.2) _ (Keeps.refl h) fun r attempt hmem hr => ?_
  obtain ⟨id, hget⟩ := mem_values ((List.mem_insertionSort _).mp hmem)
  obtain ⟨b, hb, hc⟩ := hr.2.attempt id attempt hget
  rw [← (h.attempt id attempt hget).1] at hb
  exact (reconcileAttempt_keeps hr.1 hb hc.symm).weaken (fun _ hu => hr.trans hu) fun _ _ => trivial

/-- A call whose id is fresh changes no challenge. -/
theorem call_keeps (h : Tied s) (c : Call) (hc : s.Fresh c) :
    Yields (fun r => Keeps s r.2) (fun _ => True) (s.call D float t c) := by
  cases c with
  | createWorld owner key d uuid => exact yields_wrap (createWorld_keeps h hc)
  | enqueueAttempt worldId owner key mode uuid => exact yields_wrap (enqueueAttempt_keeps h hc)
  | reconcileActiveAttempts limit => exact yields_wrap (reconcileActiveAttempts_keeps h)
  | claimAttempt attemptId worker seconds => exact yields_wrap (claimAttempt_keeps h)
  | renewAttempt lease seconds => exact yields_wrap (renewAttempt_keeps h)
  | releaseAttempt lease => exact yields_wrap (f := fun _ => Answer.unit) (releaseAttempt_keeps h)
  | completeAttempt lease c => exact yields_wrap (completeAttempt_keeps h)
  | failAttempt lease c => exact yields_wrap (failAttempt_keeps h)

/-- Every call of the sequence inserts under a fresh id. -/
def AllFresh (D : Digests) (float : ℚ → String) : MemoryTestWorldStore → List (Call × Time) → Prop
  | _, [] => True
  | s, c :: l => s.Fresh c.1 ∧ AllFresh D float (s.after D float c) l

theorem foldl_keeps (h : Tied s) (l : List (Call × Time)) (hl : AllFresh D float s l) :
    Keeps s (l.foldl (after D float) s) := by
  induction l generalizing s with
  | nil => exact Keeps.refl h
  | cons c l ih =>
    have hstep : Keeps s (s.after D float c) := by
      have hcall : Yields (fun r => Keeps s r.2) (fun _ => True) (s.call D float c.2 c.1) :=
        call_keeps h c.1 hl.1
      unfold after
      split
      · next r hr => rw [hr] at hcall; exact hcall
      · exact Keeps.refl h
    exact hstep.trans (ih hstep.1 hl.2)

theorem AllFresh.append {l m : List (Call × Time)} (h : AllFresh D float s (l ++ m)) :
    AllFresh D float s l ∧ AllFresh D float (l.foldl (after D float) s) m := by
  induction l generalizing s with
  | nil => exact ⟨trivial, h⟩
  | cons c l ih => exact ⟨⟨h.1, (ih h.2).1⟩, (ih h.2).2⟩

theorem history_tied (l : List (Call × Time)) (hl : AllFresh D float {} l) : Tied (history D float l) :=
  (foldl_keeps tied_empty l hl).1

/-- The lease is the attempt's, up to its expiry, and the attempt is running. -/
def Current (s : MemoryTestWorldStore) (lease : TestWorldLease) : Prop :=
  ∃ current attempt, s.claims.get? lease.attemptId = some current ∧ sameLease current lease = true ∧
    s.attempts.get? lease.attemptId = some attempt ∧ attempt.status = .running

/-- Under a current lease a valid result is recorded. -/
theorem completeAttempt_current (h : Tied s) {lease : TestWorldLease} (hcurrent : s.Current lease)
    {c : CompleteCall} {r : AttemptResult} (hvalid : c.validate float = .ok r)
    (hproof : ∀ a w, s.attempts.get? lease.attemptId = some a → s.worlds.get? a.worldId = some w →
      r.passed = true → hasCompletePassProof w r.feedback = true) :
    ∃ (a : TestWorldAttempt) (s' : MemoryTestWorldStore),
      s.completeAttempt float lease c t = .ok (a.judged r t, s') ∧ s'.attempts.get? (a.judged r t).id = some (a.judged r t) := by
  obtain ⟨current, a, hclaim, hsame, ha, hrun⟩ := hcurrent
  obtain ⟨hid, w, hw, hfp, hjv⟩ := h.attempt _ _ ha
  have hleased : s.leasedAttempt lease (fun current attempt =>
      sameLease current lease && attempt.status == .running) = .ok a := by
    simp only [leasedAttempt, hclaim, ha, hsame, hrun, Bool.true_and]
    rfl
  have hchallenge : ¬(a.worldFingerprint ≠ w.fingerprint ∨ a.judgeVersion ≠ w.judgeVersion) := by
    simp [hfp, hjv]
  have hfull : ¬(r.passed = true ∧ hasCompletePassProof w r.feedback = false) := by
    intro hpart
    rw [hproof a w ha hw hpart.1] at hpart
    cases hpart.2
  have hitem : item s.worlds a.worldId = .ok w := by rw [item, hw]
  have hrecorded : s.completeAttempt float lease c t = .ok (a.judged r t, ({ s with
      attempts := s.attempts.set a.id (a.judged r t), claims := s.claims.erase a.id } :
      MemoryTestWorldStore).setStatus w (judgedStatus r.passed a.number w.maxAttempts) t) := by
    rw [completeAttempt, hvalid, ok_bind, hleased, ok_bind, hitem, ok_bind, if_neg hchallenge, if_neg hfull]
  exact ⟨a, _, hrecorded, Dict.get?_set_self _ _ _⟩

/-- A claim leases the attempt it names. -/
theorem claimAttempt_leases (attemptId workerId : String) (seconds : Int) :
    Yields (fun r => ∀ lease, r.1 = some lease →
      ∃ a, s.attempts.get? attemptId = some a ∧ lease.attemptId = a.id) (fun _ => True)
      (s.claimAttempt attemptId workerId seconds t) := by
  have hnone : ∀ lease : TestWorldLease, (none : Option TestWorldLease) = some lease →
      ∃ a, s.attempts.get? attemptId = some a ∧ lease.attemptId = a.id := fun _ h => by cases h
  refine Yields.ite (fun _ => trivial) fun _ => ?_
  split
  · exact hnone
  next attempt ha =>
  refine Yields.ite (fun _ => hnone) fun _ => ?_
  refine (item_yields _ _).bind fun w _ => ?_
  intro lease hlease
  obtain rfl := Option.some.inj hlease
  exact ⟨attempt, ha, rfl⟩

/-- An attempt that `fail_attempt` ends is an error. -/
theorem failAttempt_errors (lease : TestWorldLease) (c : FailCall) :
    Yields (fun r => r.1.status = .error) (fun _ => True) (s.failAttempt float lease c t) := by
  unfold failAttempt
  cases c.validate float with
  | error e => trivial
  | ok error =>
    refine (leasedAttempt_yields lease _).bind fun attempt _ => ?_
    refine (item_yields _ _).bind fun w _ => ?_
    rfl

end MemoryTestWorldStore

theorem claimedHistory_fresh : MemoryTestWorldStore.AllFresh zeroDigests (fun _ => "0") {} claimedHistory := by
  refine ⟨rfl, ?_, trivial, trivial⟩
  have hnew : ((MemoryTestWorldStore.after zeroDigests (fun _ => "0") {}
      (.createWorld "owner" "world" sampleDefinition sampleUuid, 100)).attempts.get?
        "attempt:00000000000000000000000000000001").isNone = true := by decide +kernel
  exact Option.isNone_iff_eq_none.mp hnew

end LilTweak.Worlds
