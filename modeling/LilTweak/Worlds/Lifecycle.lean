import LilTweak.Worlds.Challenge
import Mathlib

/-!
# The life of a Test World

The attempts of a world form a chronicle: they are numbered, each names the one before it, and
only the last may still be open. Every call keeps the chronicle of every world, no call reopens a
closed world or changes a finished attempt, and a call that raises leaves the store as it was.
-/

namespace LilTweak.Worlds

open LilTweak.Lib LilTweak.Core LilTweak.Store

/-- The attempts of a world, oldest first, and the status they give it. -/
structure Chronicle (world : TestWorld) (attempts : List TestWorldAttempt) : Prop where
  numbered : ∀ k a, attempts[k]? = some a →
    a.number = k + 1 ∧ a.previousAttemptId = (attempts.take k).getLast?.map TestWorldAttempt.id
  budget : (attempts.length : Int) ≤ world.maxAttempts
  ended : ∀ a ∈ attempts.dropLast, a.status.active = false
  running : world.status = .running ↔ ∃ a ∈ attempts, a.status.active = true
  proven : world.status = .passed →
    ∃ a, attempts.getLast? = some a ∧ hasCompletePassProof world a.feedback = true

namespace Chronicle

variable {world : TestWorld} {attempts earlier : List TestWorldAttempt} {a b : TestWorldAttempt}

/-- Nothing has been attempted in a new world. -/
theorem nil (hready : world.status = .ready) (hmax : 0 ≤ world.maxAttempts) : Chronicle world [] where
  numbered k a h := by simp at h
  budget := by simpa using hmax
  ended a h := by simp at h
  running := by simp [hready]
  proven h := by simp [hready] at h

/-- The open attempt is the last one. -/
theorem active_last (h : Chronicle world attempts) (ha : a ∈ attempts) (hactive : a.status.active = true) :
    ∃ earlier, attempts = earlier ++ [a] := by
  have hne : attempts ≠ [] := List.ne_nil_of_mem ha
  have hsplit := List.dropLast_append_getLast hne
  rw [← hsplit] at ha
  rcases List.mem_append.mp ha with hearly | hlast
  · rw [h.ended a hearly] at hactive
    cases hactive
  · rw [List.mem_singleton.mp hlast]
    exact ⟨attempts.dropLast, hsplit.symm⟩

/-- At most one attempt is open. -/
theorem single (h : Chronicle world attempts) (ha : a ∈ attempts) (hb : b ∈ attempts)
    (hactive : a.status.active = true) (hactive' : b.status.active = true) : a = b := by
  obtain ⟨earlier, rfl⟩ := h.active_last ha hactive
  rcases List.mem_append.mp hb with hearly | hlast
  · have hended := h.ended b (by rwa [List.dropLast_concat])
    rw [hended] at hactive'
    cases hactive'
  · exact (List.mem_singleton.mp hlast).symm

theorem getElem?_concat_lt {α : Type} {l : List α} {x y : α} {k : Nat} (h : (l ++ [x])[k]? = some y) :
    (k = l.length ∧ y = x) ∨ (k < l.length ∧ l[k]? = some y) := by
  rcases lt_or_ge k l.length with hk | hk
  · rw [List.getElem?_append_left hk] at h
    exact .inr ⟨hk, h⟩
  · rw [List.getElem?_append_right hk, List.getElem?_singleton] at h
    split at h
    · exact .inl ⟨by omega, (Option.some.inj h).symm⟩
    · cases h

/-- A new attempt under the next number opens the world. -/
theorem snoc (h : Chronicle world attempts) {world' : TestWorld} (hmax : world'.maxAttempts = world.maxAttempts)
    (hclosed : world.status ≠ .running) (hroom : (attempts.length : Int) < world.maxAttempts)
    (hnumber : a.number = attempts.length + 1)
    (hprevious : a.previousAttemptId = attempts.getLast?.map TestWorldAttempt.id)
    (hactive : a.status.active = true) (hstatus : world'.status = .running) :
    Chronicle world' (attempts ++ [a]) where
  numbered k b hb := by
    rcases getElem?_concat_lt hb with ⟨rfl, rfl⟩ | ⟨hk, hb⟩
    · rw [List.take_left]
      exact ⟨hnumber, hprevious⟩
    · rw [List.take_append_of_le_length hk.le]
      exact h.numbered k b hb
  budget := by
    rw [List.length_append, List.length_singleton, hmax]
    omega
  ended b hb := by
    rw [List.dropLast_concat] at hb
    apply Bool.eq_false_iff.mpr
    intro hopen
    exact hclosed (h.running.mpr ⟨b, hb, hopen⟩)
  running := iff_of_true hstatus ⟨a, List.mem_append_right _ (List.mem_singleton_self a), hactive⟩
  proven hp := by
    rw [hstatus] at hp
    cases hp

/-- The last attempt is overwritten, and the world gets the status that goes with it. -/
theorem setLast (h : Chronicle world (earlier ++ [a])) {world' : TestWorld} (hnumber : b.number = a.number)
    (hprevious : b.previousAttemptId = a.previousAttemptId)
    (hmax : world'.maxAttempts = world.maxAttempts) (hchecks : world'.checks = world.checks)
    (hrunning : world'.status = .running ↔ b.status.active = true)
    (hproven : world'.status = .passed → hasCompletePassProof world b.feedback = true) :
    Chronicle world' (earlier ++ [b]) where
  numbered k c hc := by
    rcases getElem?_concat_lt hc with ⟨rfl, rfl⟩ | ⟨hk, hc⟩
    · have hold := h.numbered earlier.length a (by simp)
      rw [List.take_left] at hold ⊢
      rw [hnumber, hprevious]
      exact hold
    · have hold := h.numbered k c (by rw [List.getElem?_append_left hk]; exact hc)
      rw [List.take_append_of_le_length hk.le] at hold ⊢
      exact hold
  budget := by
    have hold := h.budget
    rw [List.length_append, List.length_singleton] at hold ⊢
    rw [hmax]
    exact hold
  ended c hc := by
    apply h.ended c
    rw [List.dropLast_concat] at hc ⊢
    exact hc
  running := by
    rw [hrunning]
    constructor
    · intro hopen
      exact ⟨b, List.mem_append_right _ (List.mem_singleton_self b), hopen⟩
    · rintro ⟨c, hc, hopen⟩
      rcases List.mem_append.mp hc with hearly | hlast
      · rw [h.ended c (by rwa [List.dropLast_concat])] at hopen
        cases hopen
      · rwa [← List.mem_singleton.mp hlast]
  proven hp := by
    refine ⟨b, List.getLast?_concat, ?_⟩
    have hproof := hproven hp
    unfold hasCompletePassProof at hproof ⊢
    rw [hchecks]
    exact hproof

end Chronicle

namespace MemoryTestWorldStore

variable {D : Digests} {float : ℚ → String} {s s' u : MemoryTestWorldStore} {t : Time}

/-- The attempts of a world in the store. -/
structure HasAttempts (s : MemoryTestWorldStore) (worldId : String) (attempts : List TestWorldAttempt) : Prop where
  ids : s.attemptIds.get? worldId = some (attempts.map TestWorldAttempt.id)
  stored : ∀ a ∈ attempts, s.attempts.get? a.id = some a
  all : ∀ id a, s.attempts.get? id = some a → (a.worldId = worldId ↔ a ∈ attempts)

/-- Every world has its chronicle. -/
structure Lawful (s : MemoryTestWorldStore) : Prop where
  tied : Tied s
  chronicle : ∀ id w, s.worlds.get? id = some w → ∃ attempts, s.HasAttempts id attempts ∧ Chronicle w attempts

/-- Closed worlds stay closed and finished attempts stay as they are. -/
structure Forward (s s' : MemoryTestWorldStore) : Prop where
  closed : ∀ id w, s.worlds.get? id = some w → w.status.closed = true →
    ∃ w', s'.worlds.get? id = some w' ∧ w'.status = w.status
  finished : ∀ id a, s.attempts.get? id = some a → a.status.active = false → s'.attempts.get? id = some a

/-- The store stays lawful and goes forward. -/
def Proceeds (s s' : MemoryTestWorldStore) : Prop := Lawful s' ∧ Forward s s'

theorem lawful_empty : Lawful {} := ⟨tied_empty, fun _ _ h => by cases h⟩

theorem Forward.refl : Forward s s := ⟨fun _ w hw _ => ⟨w, hw, rfl⟩, fun _ _ ha _ => ha⟩

theorem Forward.trans (h : Forward s s') (h' : Forward s' u) : Forward s u where
  closed id w hw hclosed := by
    obtain ⟨w', hw', he⟩ := h.closed id w hw hclosed
    obtain ⟨w'', hw'', he'⟩ := h'.closed id w' hw' (he ▸ hclosed)
    exact ⟨w'', hw'', he'.trans he⟩
  finished id a ha hended := h'.finished id a (h.finished id a ha hended) hended

theorem Proceeds.refl (h : Lawful s) : Proceeds s s := ⟨h, Forward.refl⟩

theorem Proceeds.trans (h : Proceeds s s') (h' : Proceeds s' u) : Proceeds s u := ⟨h'.1, h.2.trans h'.2⟩

/-- What a call leaves when it has written neither worlds nor attempts. -/
theorem Proceeds.same (h : Lawful s) (hw : s'.worlds = s.worlds) (ha : s'.attempts = s.attempts)
    (hi : s'.attemptIds = s.attemptIds) : Proceeds s s' := by
  obtain ⟨worlds, attempts, attemptIds, _, _, _, _⟩ := s'
  obtain rfl : worlds = s.worlds := hw
  obtain rfl : attempts = s.attempts := ha
  obtain rfl : attemptIds = s.attemptIds := hi
  refine ⟨⟨⟨h.tied.world, h.tied.attempt⟩, fun id w hw => ?_⟩, fun _ w hw _ => ⟨w, hw, rfl⟩, fun _ _ ha _ => ha⟩
  obtain ⟨as, has, hchron⟩ := h.chronicle id w hw
  exact ⟨as, ⟨has.ids, has.stored, has.all⟩, hchron⟩

/-- Two attempts of a world under one id are one. -/
theorem HasAttempts.inj {worldId : String} {attempts : List TestWorldAttempt} (h : s.HasAttempts worldId attempts)
    {a b : TestWorldAttempt} (ha : a ∈ attempts) (hb : b ∈ attempts) (hid : a.id = b.id) : a = b :=
  Option.some.inj ((h.stored a ha).symm.trans (hid ▸ h.stored b hb))

/-- An attempt is overwritten by `b`, and the list of its world accordingly. -/
theorem HasAttempts.overwrite {worldId : String} {earlier : List TestWorldAttempt} {a b : TestWorldAttempt}
    (ht : Tied s) (h : s.HasAttempts worldId (earlier ++ [a])) (hnew : a ∉ earlier) (hid : b.id = a.id)
    (hworld : b.worldId = a.worldId) (ha' : a.worldId = worldId)
    {s' : MemoryTestWorldStore} (hs : s'.attempts = s.attempts.set a.id b) (hi : s'.attemptIds = s.attemptIds) :
    s'.HasAttempts worldId (earlier ++ [b]) := by
  have hlast : a ∈ earlier ++ [a] := List.mem_append_right _ (List.mem_singleton_self a)
  have hother : ∀ c ∈ earlier, c.id ≠ a.id := by
    intro c hc he
    have hca := h.inj (List.mem_append_left [a] hc) hlast he
    exact hnew (hca ▸ hc)
  constructor
  · rw [hi, h.ids, List.map_append, List.map_append, List.map_singleton, List.map_singleton, hid]
  · intro c hc
    rw [hs]
    rcases List.mem_append.mp hc with hearly | hb
    · rw [Dict.get?_set_ne _ _ (hother c hearly)]
      exact h.stored c (List.mem_append_left _ hearly)
    · rw [List.mem_singleton.mp hb, hid, Dict.get?_set_self]
  · intro id c hc
    rw [hs] at hc
    by_cases hk : id = a.id
    · subst hk
      rw [Dict.get?_set_self, Option.some.injEq] at hc
      subst hc
      exact iff_of_true (hworld.trans ha') (List.mem_append_right _ (List.mem_singleton_self _))
    · rw [Dict.get?_set_ne _ _ hk] at hc
      have hcid := (ht.attempt id c hc).1
      rw [h.all id c hc, List.mem_append, List.mem_append, List.mem_singleton, List.mem_singleton]
      have hca : c ≠ a := fun he => hk (hcid.symm.trans (he ▸ rfl))
      have hcb : c ≠ b := fun he => hk (hcid.symm.trans (he ▸ hid))
      simp only [hca, hcb]

/-- The attempts of another world are not touched. -/
theorem HasAttempts.frame {worldId : String} {attempts : List TestWorldAttempt} {a b : TestWorldAttempt}
    (h : s.HasAttempts worldId attempts) (ha : s.attempts.get? a.id = none ∨ s.attempts.get? a.id = some a)
    (hid : b.id = a.id) (hworld : b.worldId = a.worldId) (hother : a.worldId ≠ worldId)
    {s' : MemoryTestWorldStore} (hs : s'.attempts = s.attempts.set a.id b)
    (hi : s'.attemptIds.get? worldId = s.attemptIds.get? worldId) : s'.HasAttempts worldId attempts := by
  have hne : ∀ c ∈ attempts, c.id ≠ a.id := by
    intro c hc he
    have hstored := h.stored c hc
    rw [he] at hstored
    rcases ha with hnone | hsome
    · rw [hnone] at hstored
      cases hstored
    · rw [hsome, Option.some.injEq] at hstored
      subst hstored
      exact hother ((h.all _ a hsome).mpr hc)
  constructor
  · rw [hi, h.ids]
  · intro c hc
    rw [hs, Dict.get?_set_ne _ _ (hne c hc)]
    exact h.stored c hc
  · intro id c hc
    rw [hs] at hc
    by_cases hk : id = a.id
    · subst hk
      rw [Dict.get?_set_self, Option.some.injEq] at hc
      subst hc
      rw [hworld]
      exact iff_of_false hother fun hc => hne _ hc hid
    · rw [Dict.get?_set_ne _ _ hk] at hc
      exact h.all id c hc

/-- An open attempt is overwritten, and its world gets the status that goes with it. -/
theorem Lawful.setBoth (h : Lawful s) {id : String} {a b : TestWorldAttempt} {w : TestWorld}
    (ha : s.attempts.get? id = some a) (hopen : a.status.active = true)
    (hw : s.worlds.get? a.worldId = some w) (hc : b.challenge = a.challenge) (hnumber : b.number = a.number)
    (hprevious : b.previousAttemptId = a.previousAttemptId) {status : WorldStatus}
    (hrunning : status = .running ↔ b.status.active = true)
    (hproven : status = .passed → hasCompletePassProof w b.feedback = true)
    (claims : Dict String TestWorldLease) (generations : Dict String Nat) :
    Proceeds s (({ s with attempts := s.attempts.set id b, claims, generations } :
      MemoryTestWorldStore).setStatus w status t) := by
  have htied := (Keeps.setBoth (t := t) h.tied ha hc hw status claims generations).1
  have haid := (h.tied.attempt id a ha).1
  have hwid := h.tied.world _ _ hw
  subst haid
  have hfields := hc
  simp only [TestWorldAttempt.challenge, Prod.mk.injEq] at hfields
  obtain ⟨hbid, hbworld, -, -⟩ := hfields
  obtain ⟨attempts, has, hchron⟩ := h.chronicle a.worldId w hw
  have hmem : a ∈ attempts := (has.all a.id a ha).mp rfl
  obtain ⟨earlier, rfl⟩ := hchron.active_last hmem hopen
  have hnew : a ∉ earlier := by
    intro hin
    rw [hchron.ended a (by rwa [List.dropLast_concat])] at hopen
    cases hopen
  refine ⟨⟨htied, fun k v hv => ?_⟩, fun k v hv hclosed => ?_, fun k c hk hended => ?_⟩
  · by_cases hkw : k = w.id
    · subst hkw
      simp only [setStatus, Dict.get?_set_self, Option.some.injEq] at hv
      subst hv
      refine ⟨earlier ++ [b], ?_, hchron.setLast hnumber hprevious rfl rfl hrunning hproven⟩
      rw [hwid]
      exact has.overwrite h.tied hnew hbid hbworld rfl rfl rfl
    · simp only [setStatus, Dict.get?_set_ne _ _ hkw] at hv
      obtain ⟨others, hothers, hother⟩ := h.chronicle k v hv
      have hne : a.worldId ≠ k := fun he => hkw (he.symm.trans hwid.symm)
      exact ⟨others, hothers.frame (.inr ha) hbid hbworld hne rfl rfl, hother⟩
  · have hkw : k ≠ w.id := by
      rintro rfl
      rw [hwid, hw, Option.some.injEq] at hv
      subst hv
      rw [hchron.running.mpr ⟨a, hmem, hopen⟩] at hclosed
      cases hclosed
    exact ⟨v, (Dict.get?_set_ne _ _ hkw).trans hv, rfl⟩
  · have hka : k ≠ a.id := by
      rintro rfl
      rw [ha, Option.some.injEq] at hk
      subst hk
      rw [hopen] at hended
      cases hended
    exact (Dict.get?_set_ne _ _ hka).trans hk

/-- A new attempt under the next number. -/
theorem Lawful.addAttempt (h : Lawful s) {a : TestWorldAttempt} {w : TestWorld} {attempts : List TestWorldAttempt}
    (hfresh : s.attempts.get? a.id = none) (hw : s.worlds.get? a.worldId = some w)
    (hfp : w.fingerprint = a.worldFingerprint) (hjv : w.judgeVersion = a.judgeVersion)
    (has : s.HasAttempts a.worldId attempts) (hchron : Chronicle w attempts)
    (hclosed : w.status.closed = false) (hnone : ∀ b ∈ attempts, b.status.active = false)
    (hroom : (attempts.length : Int) < w.maxAttempts) (hnumber : a.number = attempts.length + 1)
    (hprevious : a.previousAttemptId = attempts.getLast?.map TestWorldAttempt.id)
    (hopen : a.status.active = true) (keys : Dict (String × String) (String × String × AttemptMode)) :
    Proceeds s (({ s with
      attempts := s.attempts.set a.id a
      attemptIds := s.attemptIds.set a.worldId (attempts.map TestWorldAttempt.id ++ [a.id])
      attemptIdempotency := keys } : MemoryTestWorldStore).setStatus w .running t) := by
  have hwid := h.tied.world _ _ hw
  have hkept := Keeps.addAttempt h.tied hfresh hw hfp hjv
  have hadded : Keeps s { s with
      attempts := s.attempts.set a.id a
      attemptIds := s.attemptIds.set a.worldId (attempts.map TestWorldAttempt.id ++ [a.id])
      attemptIdempotency := keys } := hkept.trans (Keeps.same hkept.1 rfl rfl)
  have hwhere : s.worlds.get? w.id = some w := by rw [hwid]; exact hw
  have hstopped : w.status ≠ .running := by
    intro hrunning
    obtain ⟨b, hb, hactive⟩ := hchron.running.mp hrunning
    rw [hnone b hb] at hactive
    cases hactive
  have hout : ∀ b ∈ attempts, b.id ≠ a.id := by
    intro b hb he
    have hstored := has.stored b hb
    rw [he, hfresh] at hstored
    cases hstored
  refine ⟨⟨(hadded.setStatus hwhere .running).1, fun k v hv => ?_⟩, fun k v hv hend => ?_, fun k c hk _ => ?_⟩
  · by_cases hkw : k = w.id
    · subst hkw
      simp only [setStatus, Dict.get?_set_self, Option.some.injEq] at hv
      subst hv
      refine ⟨attempts ++ [a], ?_, hchron.snoc rfl hstopped hroom hnumber hprevious hopen rfl⟩
      rw [hwid]
      constructor
      · show (s.attemptIds.set _ _).get? _ = _
        rw [Dict.get?_set_self, List.map_append, List.map_singleton]
      · intro b hb
        show (s.attempts.set _ _).get? _ = _
        rcases List.mem_append.mp hb with hold | hlast
        · rw [Dict.get?_set_ne _ _ (hout b hold)]
          exact has.stored b hold
        · rw [List.mem_singleton.mp hlast, Dict.get?_set_self]
      · intro id b hb
        simp only [setStatus] at hb
        by_cases hk : id = a.id
        · subst hk
          rw [Dict.get?_set_self, Option.some.injEq] at hb
          subst hb
          exact iff_of_true rfl (List.mem_append_right _ (List.mem_singleton_self _))
        · rw [Dict.get?_set_ne _ _ hk] at hb
          have hba : b ≠ a := fun he => hk ((h.tied.attempt id b hb).1.symm.trans (he ▸ rfl))
          rw [has.all id b hb, List.mem_append, List.mem_singleton]
          simp only [hba, or_false]
    · simp only [setStatus, Dict.get?_set_ne _ _ hkw] at hv
      obtain ⟨others, hothers, hother⟩ := h.chronicle k v hv
      have hne : a.worldId ≠ k := fun he => hkw (he.symm.trans hwid.symm)
      refine ⟨others, hothers.frame (.inl hfresh) rfl rfl hne rfl ?_, hother⟩
      exact Dict.get?_set_ne _ _ hne.symm
  · have hkw : k ≠ w.id := by
      rintro rfl
      rw [hwid, hw, Option.some.injEq] at hv
      subst hv
      rw [hclosed] at hend
      cases hend
    exact ⟨v, (Dict.get?_set_ne _ _ hkw).trans hv, rfl⟩
  · have hka : k ≠ a.id := by
      rintro rfl
      rw [hfresh] at hk
      cases hk
    exact (Dict.get?_set_ne _ _ hka).trans hk

/-- A new world. -/
theorem Lawful.addWorld (h : Lawful s) {w : TestWorld} (hfresh : s.worlds.get? w.id = none)
    (hready : w.status = .ready) (hmax : 0 ≤ w.maxAttempts)
    (keys : Dict (String × String) (String × String)) :
    Proceeds s { s with
      worlds := s.worlds.set w.id w
      attemptIds := s.attemptIds.set w.id []
      worldIdempotency := keys } := by
  have hnone : ∀ id a, s.attempts.get? id = some a → a.worldId ≠ w.id := by
    intro id a ha he
    obtain ⟨-, v, hv, -⟩ := h.tied.attempt id a ha
    rw [he, hfresh] at hv
    cases hv
  refine ⟨⟨⟨fun k v hv => ?_, fun k a ha => ?_⟩, fun k v hv => ?_⟩, fun k v hv _ => ?_, fun _ _ ha _ => ha⟩
  · by_cases hk : k = w.id
    · subst hk
      rw [Dict.get?_set_self, Option.some.injEq] at hv
      rw [← hv]
    · rw [Dict.get?_set_ne _ _ hk] at hv
      exact h.tied.world k v hv
  · obtain ⟨haid, v, hv, hc⟩ := h.tied.attempt k a ha
    exact ⟨haid, v, (Dict.get?_set_ne _ _ (hnone k a ha)).trans hv, hc⟩
  · by_cases hk : k = w.id
    · subst hk
      rw [Dict.get?_set_self, Option.some.injEq] at hv
      subst hv
      refine ⟨[], ⟨Dict.get?_set_self _ _ _, fun _ ha => absurd ha List.not_mem_nil, fun id a ha => ?_⟩,
        Chronicle.nil hready hmax⟩
      exact iff_of_false (hnone id a ha) List.not_mem_nil
    · rw [Dict.get?_set_ne _ _ hk] at hv
      obtain ⟨attempts, has, hchron⟩ := h.chronicle k v hv
      exact ⟨attempts, ⟨(Dict.get?_set_ne _ _ hk).trans has.ids, has.stored, has.all⟩, hchron⟩
  · have hk : k ≠ w.id := by
      rintro rfl
      rw [hfresh] at hv
      cases hv
    exact ⟨v, (Dict.get?_set_ne _ _ hk).trans hv, rfl⟩

/-! ## The operations -/

/-- What a call leaves behind where it raises after its first write: the statements before the
look-up of the world. -/
def partlyWritten (s : MemoryTestWorldStore) (float : ℚ → String) (t : Time) : Call → MemoryTestWorldStore
  | .claimAttempt attemptId workerId leaseSeconds =>
    match s.attempts.get? attemptId with
    | none => s
    | some attempt =>
      if workerId = "" ∨ leaseSeconds ≤ 0 ∨ attempt.status ≠ .queued ∨ s.claimable attemptId t = false then s
      else
        let generation := (s.generations.get? attemptId).getD 0 + 1
        { s with
          generations := s.generations.set attemptId generation
          claims := s.claims.set attemptId
            { attemptId := attempt.id, worldId := attempt.worldId, ownerId := attempt.ownerId, workerId
              generation, expiresAt := t + leaseSeconds }
          attempts := s.attempts.set attemptId { attempt with status := .running, startedAt := some t } }
  | .reconcileActiveAttempts limit =>
    if ¬(1 ≤ limit ∧ limit ≤ 1000) then s
    else rounds limit ([], s) (s.attempts.values.insertionSort attemptBefore)
  | .failAttempt lease c =>
    match c.validate float, s.leasedAttempt lease fun current attempt =>
        attempt.status == .running && attempt.worldId == lease.worldId &&
          attempt.ownerId == lease.ownerId && current == lease with
    | .ok error, .ok attempt => { s with
        attempts := s.attempts.set attempt.id (attempt.errored error t)
        claims := s.claims.erase attempt.id }
    | _, _ => s
  | _ => s
where
  /-- The rounds of the reconciliation up to the one that raises. -/
  rounds (limit : Int) (r : List TestWorldAttempt × MemoryTestWorldStore) :
      List TestWorldAttempt → MemoryTestWorldStore
    | [] => r.2
    | attempt :: rest => match reconcileAttempt limit t attempt r with
      | .ok r' => rounds limit r' rest
      | .error _ => { r.2 with
          attempts := r.2.attempts.set attempt.id { attempt with status := .queued, startedAt := none }
          claims := r.2.claims.erase attempt.id }

/-- The store a call leaves, whether it returns or raises. -/
def leaves (D : Digests) (float : ℚ → String) (s : MemoryTestWorldStore) (t : Time) (c : Call) :
    MemoryTestWorldStore :=
  match s.call D float t c with
  | .ok r => r.2
  | .error _ => s.partlyWritten float t c

theorem createWorld_proceeds (h : Lawful s) {owner key : String} {d : WorldDefinition} {uuid : Uuid}
    (hfresh : s.worlds.get? ("world:" ++ uuid.hex) = none) :
    Yields (fun r => Proceeds s r.2) (fun _ => True) (s.createWorld D owner key d uuid t) := by
  refine Yields.ite (fun _ => trivial) fun hadmits => ?_
  have hmax : 0 ≤ d.maxAttempts := by
    rw [Bool.not_eq_false] at hadmits
    simp only [definitionAdmits, Bool.and_eq_true, decide_eq_true_eq] at hadmits
    omega
  dsimp only
  split
  · refine Yields.ite (fun _ => trivial) fun _ => ?_
    apply Yields.map
    exact (item_yields _ _).weaken (fun _ _ => Proceeds.refl h) fun _ _ => trivial
  · exact h.addWorld (w :=
      { id := "world:" ++ uuid.hex, ownerId := owner, name := strip d.name, objective := strip d.objective
        repositoryUrl := d.repositoryUrl, commit := d.commit, checks := d.checks
        maxAttempts := d.maxAttempts, status := .ready, fingerprint := D.worldFingerprint d
        judgeVersion := D.judgeVersion d.checks, createdAt := t, updatedAt := t }) hfresh rfl hmax _

theorem mapM_stored {l : List TestWorldAttempt} (hl : ∀ a ∈ l, s.attempts.get? a.id = some a) :
    (l.map TestWorldAttempt.id).mapM (item s.attempts) = .ok l := by
  induction l with
  | nil => rfl
  | cons a l ih =>
    have ha : item s.attempts a.id = .ok a := by rw [item, hl a List.mem_cons_self]
    rw [List.map_cons, List.mapM_cons, ha, ok_bind, ih fun b hb => hl b (List.mem_cons_of_mem a hb)]
    rfl

theorem HasAttempts.worldAttempts_eq {worldId : String} {attempts : List TestWorldAttempt}
    (h : s.HasAttempts worldId attempts) : s.worldAttempts worldId = .ok attempts := by
  have hids : item s.attemptIds worldId = .ok (attempts.map TestWorldAttempt.id) := by rw [item, h.ids]
  rw [worldAttempts, hids, ok_bind, mapM_stored h.stored]

theorem enqueueAttempt_proceeds (h : Lawful s) {worldId owner key mode : String} {uuid : Uuid}
    (hfresh : s.attempts.get? ("attempt:" ++ uuid.hex) = none) :
    Yields (fun r => Proceeds s r.2) (fun _ => True) (s.enqueueAttempt worldId owner key mode uuid t) := by
  refine Yields.ite (fun _ => trivial) fun _ => ?_
  split
  · trivial
  next attemptMode _ =>
  split
  · refine Yields.ite (fun _ => trivial) fun _ => ?_
    apply Yields.map
    exact (item_yields _ _).weaken (fun _ _ => Proceeds.refl h) fun _ _ => trivial
  split
  · trivial
  next world howned =>
  have hworld := (Option.filter_eq_some_iff.mp howned).1
  refine Yields.ite (fun _ => trivial) fun hopen => ?_
  rw [Bool.not_eq_true] at hopen
  obtain ⟨attempts, has, hchron⟩ := h.chronicle worldId world hworld
  have hids : item s.attemptIds worldId = .ok (attempts.map TestWorldAttempt.id) := by rw [item, has.ids]
  rw [hids, ok_bind, has.worldAttempts_eq, ok_bind]
  refine Yields.ite (fun _ => trivial) fun hidle => ?_
  refine Yields.ite (fun _ => trivial) fun hroom => ?_
  have hnone : ∀ b ∈ attempts, b.status.active = false := by
    intro b hb
    apply Bool.eq_false_iff.mpr
    intro hactive
    exact hidle (List.any_eq_true.mpr ⟨b, hb, hactive⟩)
  rw [List.length_map] at hroom
  apply h.addAttempt hfresh hworld rfl rfl has hchron hopen hnone (not_le.mp hroom)
  · simp
  · simp
  · rfl

theorem Lawful.parent (h : Lawful s) {id : String} {a : TestWorldAttempt} (ha : s.attempts.get? id = some a) :
    ∃ w, s.worlds.get? a.worldId = some w ∧ item s.worlds a.worldId = .ok w := by
  obtain ⟨-, w, hw, -⟩ := h.tied.attempt id a ha
  exact ⟨w, hw, by rw [item, hw]⟩

theorem claimAttempt_proceeds (h : Lawful s) {attemptId workerId : String} {seconds : Int} :
    Yields (fun r => Proceeds s r.2)
      (fun _ => s.partlyWritten float t (.claimAttempt attemptId workerId seconds) = s)
      (s.claimAttempt attemptId workerId seconds t) := by
  unfold claimAttempt partlyWritten
  by_cases hargs : workerId = "" ∨ seconds ≤ 0
  · rw [if_pos hargs]
    show (match s.attempts.get? attemptId with | none => s | some attempt => _) = s
    cases s.attempts.get? attemptId with
    | none => rfl
    | some attempt => exact if_pos (or_assoc.mp (.inl hargs))
  rw [if_neg hargs]
  cases ha : s.attempts.get? attemptId with
  | none => exact Proceeds.refl h
  | some attempt =>
    refine Yields.ite (fun _ => Proceeds.refl h) fun hready => ?_
    rw [not_or, not_not] at hready
    obtain ⟨w, hw, hitem⟩ := h.parent ha
    simp only [hitem, ok_bind]
    have hopen : attempt.status.active = true := by rw [hready.1]; rfl
    exact h.setBoth (b := { attempt with status := .running, startedAt := some t }) ha hopen hw rfl rfl rfl
      (iff_of_true rfl rfl) (fun hp => by cases hp) _ _

theorem renewAttempt_proceeds (h : Lawful s) {lease : TestWorldLease} {seconds : Int} :
    Yields (fun r => Proceeds s r.2) (fun _ => True) (s.renewAttempt lease seconds t) := by
  refine Yields.ite (fun _ => trivial) fun _ => ?_
  split
  · trivial
  · exact Yields.ite (fun _ => trivial) fun _ => Proceeds.same h rfl rfl rfl

theorem releaseAttempt_proceeds (h : Lawful s) {lease : TestWorldLease} :
    Yields (fun r => Proceeds s r.2) (fun _ => True) (s.releaseAttempt lease) :=
  Yields.ite (fun _ => Proceeds.same h rfl rfl rfl) fun _ => Proceeds.refl h

/-- What a lease lets its holder end is stored, and passes the test of the caller. -/
theorem leasedAttempt_admits (lease : TestWorldLease) (admits : TestWorldLease → TestWorldAttempt → Bool) :
    Yields (fun a => s.attempts.get? lease.attemptId = some a ∧
      ∃ current, s.claims.get? lease.attemptId = some current ∧ admits current a = true) (fun _ => True)
      (s.leasedAttempt lease admits) := by
  unfold leasedAttempt
  split
  · next current attempt hclaim ha =>
    exact Yields.ite (fun hadmits => ⟨ha, current, hclaim, hadmits⟩) fun _ => trivial
  · trivial

theorem judgedStatus_running (passed : Bool) (number : Nat) (maxAttempts : Int) :
    judgedStatus passed number maxAttempts ≠ .running := by
  unfold judgedStatus
  split_ifs <;> simp

theorem judgedStatus_passed {passed : Bool} {number : Nat} {maxAttempts : Int}
    (h : judgedStatus passed number maxAttempts = .passed) : passed = true := by
  unfold judgedStatus at h
  split_ifs at h with hp
  exact hp

theorem erroredStatus_open (blocked : Bool) (number : Nat) (maxAttempts : Int) :
    erroredStatus blocked number maxAttempts ≠ .running ∧ erroredStatus blocked number maxAttempts ≠ .passed := by
  unfold erroredStatus
  split_ifs <;> simp

theorem completeAttempt_proceeds (h : Lawful s) {lease : TestWorldLease} {c : CompleteCall} :
    Yields (fun r => Proceeds s r.2) (fun _ => True) (s.completeAttempt float lease c t) := by
  unfold completeAttempt
  cases c.validate float with
  | error e => trivial
  | ok result =>
    refine (leasedAttempt_admits lease _).bind fun attempt hleased => ?_
    obtain ⟨ha, current, -, hadmits⟩ := hleased
    obtain ⟨w, hw, hitem⟩ := h.parent ha
    rw [hitem, ok_bind]
    refine Yields.ite (fun _ => trivial) fun _ => Yields.ite (fun _ => trivial) fun hproof => ?_
    rw [← (h.tied.attempt _ _ ha).1] at ha
    have hrunning : attempt.status = .running := by
      rw [Bool.and_eq_true] at hadmits
      exact beq_iff_eq.mp hadmits.2
    have hopen : attempt.status.active = true := by rw [hrunning]; rfl
    have hended : (attempt.judged result t).status.active = false := by
      unfold TestWorldAttempt.judged
      cases result.passed <;> rfl
    apply h.setBoth (b := attempt.judged result t) ha hopen hw rfl rfl rfl
    · exact iff_of_false (judgedStatus_running _ _ _) (by rw [hended]; simp)
    · intro hp
      by_contra hpart
      exact hproof ⟨judgedStatus_passed hp, Bool.not_eq_true _ ▸ hpart⟩

theorem failAttempt_proceeds (h : Lawful s) {lease : TestWorldLease} {c : FailCall} :
    Yields (fun r => Proceeds s r.2) (fun _ => s.partlyWritten float t (.failAttempt lease c) = s)
      (s.failAttempt float lease c t) := by
  unfold failAttempt partlyWritten
  cases hvalid : c.validate float with
  | error e =>
    rw [error_bind, yields_error]
    simp only [hvalid]
  | ok error =>
    rw [ok_bind]
    cases hleased : s.leasedAttempt lease fun current attempt =>
        attempt.status == .running && attempt.worldId == lease.worldId &&
          attempt.ownerId == lease.ownerId && current == lease with
    | error e =>
      rw [error_bind, yields_error]
      simp only [hvalid, hleased]
    | ok attempt =>
      have hyields := leasedAttempt_admits (s := s) lease fun current attempt =>
        attempt.status == .running && attempt.worldId == lease.worldId &&
          attempt.ownerId == lease.ownerId && current == lease
      rw [hleased] at hyields
      obtain ⟨ha, current, -, hadmits⟩ := hyields
      obtain ⟨w, hw, hitem⟩ := h.parent ha
      rw [← (h.tied.attempt _ _ ha).1] at ha
      simp only [Bool.and_eq_true, beq_iff_eq] at hadmits
      have hopen : attempt.status.active = true := by rw [hadmits.1.1.1]; rfl
      rw [ok_bind]
      simp only [hitem, ok_bind]
      obtain ⟨hrunning, hpassed⟩ := erroredStatus_open c.blocked attempt.number w.maxAttempts
      exact h.setBoth (b := attempt.errored error t) ha hopen hw rfl rfl rfl
        (iff_of_false hrunning (by simp [TestWorldAttempt.errored, AttemptStatus.active]))
        (fun hp => absurd hp hpassed) _ _

/-- One round on an attempt that is stored as it was read. -/
theorem reconcileAttempt_proceeds (h : Lawful s) {limit : Int} {attempt : TestWorldAttempt}
    {recovered : List TestWorldAttempt} (ha : s.attempts.get? attempt.id = some attempt) :
    ∃ r, reconcileAttempt limit t attempt (recovered, s) = .ok r ∧ Proceeds s r.2 ∧
      ∀ id, id ≠ attempt.id → r.2.attempts.get? id = s.attempts.get? id := by
  unfold reconcileAttempt
  simp only
  by_cases hskip : (recovered.length : Int) ≥ limit ∨ attempt.status ≠ .running
  · rw [if_pos hskip]
    exact ⟨_, rfl, Proceeds.refl h, fun _ _ => rfl⟩
  rw [if_neg hskip]
  by_cases hclaim : s.claimable attempt.id t = false
  · rw [if_pos hclaim]
    exact ⟨_, rfl, Proceeds.refl h, fun _ _ => rfl⟩
  obtain ⟨w, hw, hitem⟩ := h.parent ha
  rw [if_neg hclaim, hitem]
  rw [not_or, not_not] at hskip
  have hopen : attempt.status.active = true := by rw [hskip.2]; rfl
  exact ⟨_, rfl, h.setBoth (b := { attempt with status := .queued, startedAt := none }) ha hopen hw rfl rfl rfl
    (iff_of_true rfl rfl) (fun hp => by cases hp) _ _, fun id hid => Dict.get?_set_ne _ _ hid⟩

theorem rounds_proceed {limit : Int} : ∀ (l : List TestWorldAttempt) (r : List TestWorldAttempt × MemoryTestWorldStore),
    Lawful r.2 → (l.map TestWorldAttempt.id).Nodup → (∀ a ∈ l, r.2.attempts.get? a.id = some a) →
    ∃ r', l.foldlM (fun r attempt => reconcileAttempt limit t attempt r) r = .ok r' ∧ Proceeds r.2 r'.2
  | [], r, h, _, _ => ⟨r, rfl, Proceeds.refl h⟩
  | a :: l, r, h, hnodup, hstored => by
    rw [List.map_cons, List.nodup_cons] at hnodup
    obtain ⟨r₁, hround, hstep, hframe⟩ :=
      reconcileAttempt_proceeds h (hstored a List.mem_cons_self)
    have hrest : ∀ b ∈ l, r₁.2.attempts.get? b.id = some b := by
      intro b hb
      have hne : b.id ≠ a.id := fun he => hnodup.1 (he ▸ List.mem_map_of_mem hb)
      rw [hframe b.id hne]
      exact hstored b (List.mem_cons_of_mem a hb)
    obtain ⟨r₂, hfold, hrun⟩ := rounds_proceed l r₁ hstep.1 hnodup.2 hrest
    exact ⟨r₂, by rw [List.foldlM_cons, hround, ok_bind, hfold], hstep.trans hrun⟩

/-- The attempts a store holds, each under its id. -/
theorem Tied.values (h : Tied s) : s.attempts.values.map TestWorldAttempt.id = s.attempts.keys := by
  unfold Dict.values Dict.keys
  rw [List.map_map]
  apply List.map_congr_left
  intro e he
  exact (h.attempt e.1 e.2 ((Dict.mem_entries_iff _ _ _).mp he)).1

theorem reconcileActiveAttempts_proceeds (h : Lawful s) {limit : Int} :
    Yields (fun r => Proceeds s r.2) (fun _ => s.partlyWritten float t (.reconcileActiveAttempts limit) = s)
      (s.reconcileActiveAttempts limit t) := by
  unfold reconcileActiveAttempts partlyWritten
  by_cases hlimit : 1 ≤ limit ∧ limit ≤ 1000
  · rw [if_neg (not_not.mpr hlimit)]
    have hperm := List.perm_insertionSort attemptBefore s.attempts.values
    have hnodup : ((s.attempts.values.insertionSort attemptBefore).map TestWorldAttempt.id).Nodup := by
      rw [(hperm.map TestWorldAttempt.id).nodup_iff, h.tied.values]
      exact s.attempts.nodup
    have hstored : ∀ a ∈ s.attempts.values.insertionSort attemptBefore, s.attempts.get? a.id = some a := by
      intro a ha
      obtain ⟨id, hget⟩ := mem_values (hperm.mem_iff.mp ha)
      rwa [(h.tied.attempt id a hget).1]
    obtain ⟨r, hfold, hstep⟩ := rounds_proceed _ ([], s) h hnodup hstored
    rw [hfold]
    exact hstep
  · rw [if_pos hlimit]
    exact if_pos hlimit

/-- A call under a fresh id proceeds, and one that raises leaves the store as it was. -/
theorem call_proceeds (h : Lawful s) (c : Call) (hfresh : s.Fresh c) :
    Yields (fun r => Proceeds s r.2) (fun _ => s.partlyWritten float t c = s) (s.call D float t c) := by
  have unwritten : ∀ {x : Except TestWorldFault (Answer × MemoryTestWorldStore)},
      (∀ e : TestWorldFault, s.partlyWritten float t c = s) → Yields (fun r => Proceeds s r.2) (fun _ => True) x →
      Yields (fun r => Proceeds s r.2) (fun _ => s.partlyWritten float t c = s) x :=
    fun hs hx => hx.weaken (fun _ hr => hr) fun e _ => hs e
  cases c with
  | createWorld owner key d uuid => exact unwritten (fun _ => rfl) (yields_wrap (createWorld_proceeds h hfresh))
  | enqueueAttempt worldId owner key mode uuid =>
    exact unwritten (fun _ => rfl) (yields_wrap (enqueueAttempt_proceeds h hfresh))
  | reconcileActiveAttempts limit => exact yields_wrap (reconcileActiveAttempts_proceeds h)
  | claimAttempt attemptId worker seconds => exact yields_wrap (claimAttempt_proceeds h)
  | renewAttempt lease seconds => exact unwritten (fun _ => rfl) (yields_wrap (renewAttempt_proceeds h))
  | releaseAttempt lease =>
    exact unwritten (fun _ => rfl) (yields_wrap (f := fun _ => Answer.unit) (releaseAttempt_proceeds h))
  | completeAttempt lease c => exact unwritten (fun _ => rfl) (yields_wrap (completeAttempt_proceeds h))
  | failAttempt lease c => exact yields_wrap (failAttempt_proceeds h)

theorem leaves_eq_after (h : Lawful s) (c : Call) (hfresh : s.Fresh c) :
    s.leaves D float t c = s.after D float (c, t) := by
  have hcall : Yields (fun r => Proceeds s r.2) (fun _ => s.partlyWritten float t c = s)
      (s.call D float t c) := call_proceeds h c hfresh
  unfold leaves after
  simp only
  cases hr : s.call D float t c with
  | ok r => rfl
  | error e =>
    rw [hr] at hcall
    exact hcall

theorem foldl_proceeds (h : Lawful s) (l : List (Call × Time)) (hl : AllFresh D float s l) :
    Proceeds s (l.foldl (after D float) s) := by
  induction l generalizing s with
  | nil => exact Proceeds.refl h
  | cons c l ih =>
    have hstep : Proceeds s (s.after D float c) := by
      have hcall : Yields (fun r => Proceeds s r.2) (fun _ => s.partlyWritten float c.2 c.1 = s)
          (s.call D float c.2 c.1) := call_proceeds h c.1 hl.1
      unfold after
      cases hr : s.call D float c.2 c.1 with
      | ok r =>
        rw [hr] at hcall
        exact hcall
      | error e => exact Proceeds.refl h
    exact hstep.trans (ih hstep.1 hl.2)

end MemoryTestWorldStore

/-! ## Every history -/

/-- What holds of a world: its attempts are those of the store, at most one is open, they are
numbered from one and each names the one before it, and the status follows them. -/
structure WorldLaw (s : MemoryTestWorldStore) (worldId : String) (world : TestWorld)
    (attempts : List TestWorldAttempt) : Prop where
  stored : s.worldAttempts worldId = .ok attempts ∧
    ∀ id a, s.attempts.get? id = some a → (a.worldId = worldId ↔ a ∈ attempts)
  single : ∀ a ∈ attempts, ∀ b ∈ attempts, a.status.active = true → b.status.active = true → a = b
  numbered : (attempts.length : Int) ≤ world.maxAttempts ∧ ∀ k a, attempts[k]? = some a →
    a.number = k + 1 ∧ a.previousAttemptId = (attempts.take k).getLast?.map TestWorldAttempt.id
  running : world.status = .running ↔ ∃ a ∈ attempts, a.status.active = true
  proven : world.status = .passed →
    ∃ a, attempts.getLast? = some a ∧ hasCompletePassProof world a.feedback = true

end LilTweak.Worlds
