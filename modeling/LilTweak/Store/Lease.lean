import LilTweak.Store.Lifecycle

/-!
# Leases and fencing

A world is a store together with what its workers were told: every lease handed
out, in its latest renewal, and the leases that a release or a reconciliation
took off the claim table. The invariant links these to the claim table and the
generation counters; the fencing results follow from it.
-/

namespace LilTweak.Store

open LilTweak.Lib LilTweak.Core MemoryJobStore

/-- The reading of the clock a call decides its leases by. -/
def Call.leaseTime (c : Call) : Time :=
  match c.op with
  | .claimJob _ _ _ _ now | .renewClaim _ _ now | .reconcileActiveJobs now _ => now.getD (c.clk 0)
  | _ => c.clk 0

/-- The leases handed out after one more answer: a claim adds its lease and a
renewal replaces the lease it renews. -/
def handOut (leases : List JobLease) (answer : Except StoreFault Reply) : List JobLease :=
  match answer with
  | .ok (.leaseOption (some l)) => leases ++ [l]
  | .ok (.lease l) =>
    leases.map fun k => if k.jobId = l.jobId ∧ k.generation = l.generation then l else k
  | _ => leases

/-- The claims that a call took off the table. -/
def droppedClaims (s s' : MemoryJobStore) : List (JobId × Nat) :=
  (s.claims.entries.filter fun p => (s'.claims.get? p.1).isNone).map fun p => (p.1, p.2.generation)

structure LeaseWorld where
  store : MemoryJobStore := {}
  now : Time
  leases : List JobLease := []
  dropped : List (JobId × Nat) := []

/-- The generation counter of a job. -/
def LeaseWorld.generation (w : LeaseWorld) (id : JobId) : Nat :=
  (w.store.leaseGenerations.get? id).getD 0

/-- The world after a call. -/
def LeaseWorld.next (H : Hashes) (w : LeaseWorld) (c : Call) : LeaseWorld where
  store := (exec H w.store c.op c.clk).2
  now := c.leaseTime
  leases := handOut w.leases (exec H w.store c.op c.clk).1
  dropped := w.dropped ++ droppedClaims w.store (exec H w.store c.op c.clk).2

/-- Any call at a time the clock has not passed. -/
def LeaseStep (H : Hashes) (w : LeaseWorld) (c : Call) (w' : LeaseWorld) : Prop :=
  c.fresh w.store ∧ w.now ≤ c.leaseTime ∧ w' = w.next H c

/-- The lease was handed out and neither released by its holder nor cleared by
reconciliation. -/
def LeaseWorld.Holds (w : LeaseWorld) (l : JobLease) : Prop :=
  l ∈ w.leases ∧ (l.jobId, l.generation) ∉ w.dropped

/-- What links the leases the workers hold to the tables. -/
structure LeaseWorld.Fenced (w : LeaseWorld) : Prop where
  wellFormed : w.store.WellFormed
  bounded : ∀ l ∈ w.leases, l.generation ≤ w.generation l.jobId
  unique : ∀ l ∈ w.leases, ∀ l' ∈ w.leases, l.jobId = l'.jobId → l.generation = l'.generation → l = l'
  claimed : ∀ l, w.Holds l → l.generation = w.generation l.jobId →
    w.store.claims.get? l.jobId = some l
  newest : ∀ l, w.Holds l → w.now < l.expiresAt → l.generation = w.generation l.jobId
  table : ∀ id c, w.store.claims.get? id = some c →
    c.jobId = id ∧ w.Holds c ∧ c.generation = w.generation id
  past : ∀ id g, (id, g) ∈ w.dropped → g ≤ w.generation id

theorem fenced_start (t : Time) : LeaseWorld.Fenced { now := t } where
  wellFormed := wellFormed_empty
  bounded _ h := absurd h List.not_mem_nil
  unique _ h := absurd h List.not_mem_nil
  claimed _ h := absurd h.1 List.not_mem_nil
  newest _ h := absurd h.1 List.not_mem_nil
  table _ _ h := by cases h
  past _ _ h := absurd h List.not_mem_nil

variable {H : Hashes}

/-! ## What a call does to the lease tables -/

/-- The three things a call can do to the lease tables: hand out a new lease,
renew the current one, or at most take claims off. -/
inductive LeaseEffect (s : MemoryJobStore) (t : Time) (r : Except StoreFault Reply)
    (s' : MemoryJobStore) : Prop
  | claim (l : JobLease) (hr : r = .ok (.leaseOption (some l)))
      (hgen : l.generation = (s.leaseGenerations.get? l.jobId).getD 0 + 1)
      (hfree : s.leased l.jobId t = false) (hclaims : s'.claims = s.claims.set l.jobId l)
      (hgens : s'.leaseGenerations = s.leaseGenerations.set l.jobId l.generation)
  | renew (id : JobId) (current : JobLease) (expiresAt : Time)
      (hr : r = .ok (.lease { current with expiresAt }))
      (hclaim : s.claims.get? id = some current) (hlive : t < current.expiresAt)
      (hclaims : s'.claims = s.claims.set id { current with expiresAt })
      (hgens : s'.leaseGenerations = s.leaseGenerations)
  | remove (hr : ∀ leases, handOut leases r = leases)
      (hclaims : ∀ id, s'.claims.get? id = s.claims.get? id ∨ s'.claims.get? id = none)
      (hgens : s'.leaseGenerations = s.leaseGenerations)

theorem MemoryJobStore.Recovers.leaseTables {t : Time} {s s' : MemoryJobStore} {id : JobId}
    (h : Recovers t s id s') :
    (∀ id', s'.claims.get? id' = s.claims.get? id' ∨ s'.claims.get? id' = none) ∧
      s'.leaseGenerations = s.leaseGenerations := by
  obtain ⟨job, target, at_, -, -, -, -, rfl⟩ := h.effect
  refine ⟨fun id' => ?_, rfl⟩
  simp only [logEvent_claims, Dict.get?_erase]
  by_cases hid : id' = id
  · exact .inr (if_pos hid)
  · exact .inl (if_neg hid)

theorem recoveries_leaseTables {t : Time} {s s' : MemoryJobStore} {ids : List JobId}
    (h : Run (Recovers t) s ids s') :
    (∀ id', s'.claims.get? id' = s.claims.get? id' ∨ s'.claims.get? id' = none) ∧
      s'.leaseGenerations = s.leaseGenerations := by
  refine h.relates (I := fun _ => True) (R := fun s s' =>
    (∀ id', s'.claims.get? id' = s.claims.get? id' ∨ s'.claims.get? id' = none) ∧
      s'.leaseGenerations = s.leaseGenerations) (fun _ => ⟨fun _ => .inl rfl, rfl⟩) ?_
    (fun _ _ _ _ _ => trivial) (fun _ _ _ _ hs => hs.leaseTables) trivial
  intro s t u hst htu
  refine ⟨fun id' => ?_, htu.2.trans hst.2⟩
  rcases htu.1 id' with h | h
  · rw [h]; exact hst.1 id'
  · exact .inr h

theorem StoreStep.leaseEffect {s s' : MemoryJobStore} (hw : s.WellFormed) {c : Call}
    (h : StoreStep H s c s') :
    LeaseEffect s c.leaseTime (exec H s c.op c.clk).1 s' := by
  have keep : ∀ (hr : ∀ leases, handOut leases (exec H s c.op c.clk).1 = leases)
      (hc : s'.claims = s.claims) (hg : s'.leaseGenerations = s.leaseGenerations),
      LeaseEffect s c.leaseTime (exec H s c.op c.clk).1 s' :=
    fun hr hc hg => .remove hr (fun id => .inl (by rw [hc])) hg
  rcases h.cases hw with ⟨⟨e, he⟩, rfl⟩ | ⟨r, hr, heff⟩
  · exact keep (fun leases => by rw [he]; rfl) rfl rfl
  obtain ⟨op, clk⟩ := c
  simp only at hr heff keep
  cases heff with
  | read hread => exact keep (fun leases => by rw [hr]; cases hread <;> rfl) rfl rfl
  | claimed _ _ _ hfree lease hlease =>
    subst hlease
    exact .claim _ hr rfl hfree rfl rfl
  | renewed _ hclaim _ hlive => exact .renew _ _ _ hr hclaim hlive rfl rfl
  | @released lease =>
    refine .remove (fun leases => by rw [hr]; rfl) (fun id => ?_) rfl
    simp only [Dict.get?_erase]
    by_cases hid : id = lease.jobId
    · exact .inr (if_pos hid)
    · exact .inl (if_neg hid)
  | reconciled _ _ hrun =>
    obtain ⟨hclaims, hgens⟩ := recoveries_leaseTables hrun
    exact .remove (fun leases => by rw [hr]; rfl) hclaims hgens
  | _ => exact keep (fun leases => by rw [hr]; rfl) rfl rfl

/-! ## The invariant -/

theorem mem_droppedClaims {s s' : MemoryJobStore} {id : JobId} {g : Nat} :
    (id, g) ∈ droppedClaims s s' ↔
      s'.claims.get? id = none ∧ ∃ c, s.claims.get? id = some c ∧ c.generation = g := by
  simp only [droppedClaims, List.mem_map, List.mem_filter, Option.isNone_iff_eq_none, Prod.exists,
    Prod.mk.injEq, Dict.mem_entries_iff]
  constructor
  · rintro ⟨id', c, ⟨hc, hn⟩, rfl, rfl⟩
    exact ⟨hn, c, hc, rfl⟩
  · rintro ⟨hn, c, hc, rfl⟩
    exact ⟨id, c, ⟨hc, hn⟩, rfl, rfl⟩

section step
variable {w : LeaseWorld} {c : Call}

/-- A lease that is still held was held before, when it was handed out before. -/
theorem Holds.before {l : JobLease} (h : (w.next H c).Holds l) (hl : l ∈ w.leases) : w.Holds l :=
  ⟨hl, fun hd => h.2 (List.mem_append_left _ hd)⟩

theorem past_next (hf : w.Fenced) (hgen : ∀ id, w.generation id ≤ (w.next H c).generation id)
    (id : JobId) (g : Nat) (h : (id, g) ∈ (w.next H c).dropped) : g ≤ (w.next H c).generation id := by
  rcases List.mem_append.mp h with h | h
  · exact (hf.past id g h).trans (hgen id)
  · obtain ⟨-, k, hk, rfl⟩ := mem_droppedClaims.mp h
    exact (hf.table id k hk).2.2 ▸ hgen id

/-- A claim that survives a call was not dropped by it. -/
theorem not_dropped_next {id : JobId} {k : JobLease} {g : Nat}
    (hkeep : (w.next H c).store.claims.get? id = some k) (hd : (id, g) ∉ w.dropped) :
    (id, g) ∉ (w.next H c).dropped := by
  intro h
  rcases List.mem_append.mp h with h | h
  · exact hd h
  · obtain ⟨hn, -⟩ := mem_droppedClaims.mp h
    rw [show (w.next H c).store = (exec H w.store c.op c.clk).2 from rfl, hn] at hkeep
    cases hkeep

theorem fenced_claim (hf : w.Fenced) (hwf : (w.next H c).store.WellFormed) (hnow : w.now ≤ c.leaseTime)
    {l : JobLease} (hr : (exec H w.store c.op c.clk).1 = .ok (.leaseOption (some l)))
    (hgen : l.generation = w.generation l.jobId + 1)
    (hfree : w.store.leased l.jobId c.leaseTime = false)
    (hclaims : (w.next H c).store.claims = w.store.claims.set l.jobId l)
    (hgens : (w.next H c).store.leaseGenerations =
      w.store.leaseGenerations.set l.jobId l.generation) : (w.next H c).Fenced := by
  have hleases : (w.next H c).leases = w.leases ++ [l] := by
    simp only [LeaseWorld.next, hr, handOut]
  have hself : (w.next H c).generation l.jobId = l.generation := by
    simp [LeaseWorld.generation, hgens]
  have hother : ∀ id, id ≠ l.jobId → (w.next H c).generation id = w.generation id := by
    intro id hid
    simp only [LeaseWorld.generation, hgens, Dict.get?_set_ne _ _ hid]
  have hmono : ∀ id, w.generation id ≤ (w.next H c).generation id := by
    intro id
    by_cases hid : id = l.jobId
    · rw [hid, hself]; omega
    · rw [hother id hid]
  have hold : ∀ k ∈ w.leases, k.jobId = l.jobId → k.generation < l.generation := by
    intro k hk hid
    have := hf.bounded k hk
    rw [hid] at this
    omega
  have hstored : (w.next H c).store.claims.get? l.jobId = some l := by
    rw [hclaims, Dict.get?_set_self]
  constructor
  · exact hwf
  · intro k hk
    rw [hleases] at hk
    rcases List.mem_append.mp hk with hk | hk
    · exact (hf.bounded k hk).trans (hmono _)
    · obtain rfl := List.mem_singleton.mp hk
      exact hself.ge
  · intro k hk k' hk' hid hg
    rw [hleases] at hk hk'
    rcases List.mem_append.mp hk with hk | hk <;> rcases List.mem_append.mp hk' with hk' | hk'
    · exact hf.unique k hk k' hk' hid hg
    · rw [List.mem_singleton.mp hk'] at hid hg
      exact absurd hg (hold k hk hid).ne
    · rw [List.mem_singleton.mp hk] at hid hg
      exact absurd hg (hold k' hk' hid.symm).ne'
    · rw [List.mem_singleton.mp hk, List.mem_singleton.mp hk']
  · intro k hk hg
    have hmem := hk.1
    rw [hleases] at hmem
    rcases List.mem_append.mp hmem with hm | hm
    · by_cases hid : k.jobId = l.jobId
      · have := hold k hm hid
        rw [hid, hself] at hg
        omega
      · rw [hother _ hid] at hg
        rw [hclaims, Dict.get?_set_ne _ _ hid]
        exact hf.claimed k (Holds.before hk hm) hg
    · obtain rfl := List.mem_singleton.mp hm
      exact hstored
  · intro k hk hlive
    have hmem := hk.1
    rw [hleases] at hmem
    rcases List.mem_append.mp hmem with hm | hm
    · have hb := Holds.before hk hm
      have hg := hf.newest k hb (hnow.trans_lt hlive)
      by_cases hid : k.jobId = l.jobId
      · -- The job's unexpired lease would be its claim, and the claim was refused then.
        have hc := hf.claimed k hb hg
        rw [hid] at hc
        simp only [leased, hc, decide_eq_false_iff_not] at hfree
        exact absurd hlive hfree
      · rw [hother _ hid]
        exact hg
    · obtain rfl := List.mem_singleton.mp hm
      exact hself.symm
  · intro id k hk
    by_cases hid : id = l.jobId
    · subst hid
      obtain rfl := Option.some.inj (hstored.symm.trans hk)
      refine ⟨rfl, ⟨by rw [hleases]; simp, ?_⟩, hself.symm⟩
      refine not_dropped_next hstored fun hd => ?_
      have := hf.past _ _ hd
      omega
    · have hk' := hk
      rw [hclaims, Dict.get?_set_ne _ _ hid] at hk'
      obtain ⟨rfl, hh, hg⟩ := hf.table id k hk'
      refine ⟨rfl, ⟨by rw [hleases]; exact List.mem_append_left _ hh.1, not_dropped_next hk hh.2⟩, ?_⟩
      rw [hother _ hid]
      exact hg
  · exact past_next hf hmono

theorem fenced_renew (hf : w.Fenced) (hwf : (w.next H c).store.WellFormed)
    (hnow : w.now ≤ c.leaseTime) {id : JobId} {current : JobLease} {expiresAt : Time}
    (hr : (exec H w.store c.op c.clk).1 = .ok (.lease { current with expiresAt }))
    (hclaim : w.store.claims.get? id = some current)
    (hclaims : (w.next H c).store.claims = w.store.claims.set id { current with expiresAt })
    (hgens : (w.next H c).store.leaseGenerations = w.store.leaseGenerations) :
    (w.next H c).Fenced := by
  obtain ⟨rfl, hheld, hcurgen⟩ := hf.table id current hclaim
  have hgen : ∀ id, (w.next H c).generation id = w.generation id := by
    intro id
    simp only [LeaseWorld.generation, hgens]
  -- A lease of the new world is the renewed one, or an old one of another job or generation.
  have hmem : ∀ k, k ∈ (w.next H c).leases ↔ k = { current with expiresAt } ∨
      k ∈ w.leases ∧ ¬(k.jobId = current.jobId ∧ k.generation = current.generation) := by
    intro k
    simp only [LeaseWorld.next, hr, handOut, List.mem_map]
    constructor
    · rintro ⟨k', hk', rfl⟩
      split
      · exact .inl rfl
      · next hne => exact .inr ⟨hk', hne⟩
    · rintro (rfl | ⟨hk, hne⟩)
      · exact ⟨current, hheld.1, if_pos ⟨rfl, rfl⟩⟩
      · exact ⟨k, hk, if_neg hne⟩
  have hstored : (w.next H c).store.claims.get? current.jobId = some { current with expiresAt } := by
    rw [hclaims, Dict.get?_set_self]
  constructor
  · exact hwf
  · intro k hk
    rw [hgen]
    rcases (hmem k).mp hk with rfl | ⟨hk, -⟩
    · exact hcurgen.le
    · exact hf.bounded k hk
  · intro k hk k' hk' hid hg
    rcases (hmem k).mp hk with rfl | ⟨hk, hne⟩ <;> rcases (hmem k').mp hk' with rfl | ⟨hk', hne'⟩
    · rfl
    · exact absurd ⟨hid.symm, hg.symm⟩ hne'
    · exact absurd ⟨hid, hg⟩ hne
    · exact hf.unique k hk k' hk' hid hg
  · intro k hk hg
    rw [hgen] at hg
    rcases (hmem k).mp hk.1 with rfl | ⟨hm, hne⟩
    · exact hstored
    · by_cases hid : k.jobId = current.jobId
      · rw [hid] at hg
        exact absurd ⟨hid, hg.trans hcurgen.symm⟩ hne
      · rw [hclaims, Dict.get?_set_ne _ _ hid]
        exact hf.claimed k (Holds.before hk hm) hg
  · intro k hk hlive
    rw [hgen]
    rcases (hmem k).mp hk.1 with rfl | ⟨hm, -⟩
    · exact hcurgen
    · exact hf.newest k (Holds.before hk hm) (hnow.trans_lt hlive)
  · intro id k hk
    rw [hgen]
    by_cases hid : id = current.jobId
    · subst hid
      obtain rfl := Option.some.inj (hstored.symm.trans hk)
      exact ⟨rfl, ⟨(hmem _).mpr (.inl rfl), not_dropped_next hstored hheld.2⟩, hcurgen⟩
    · have hk' := hk
      rw [hclaims, Dict.get?_set_ne _ _ hid] at hk'
      obtain ⟨rfl, hh, hg⟩ := hf.table id k hk'
      exact ⟨rfl, ⟨(hmem k).mpr (.inr ⟨hh.1, fun h => hid h.1⟩), not_dropped_next hk hh.2⟩, hg⟩
  · exact past_next hf fun id => (hgen id).ge

theorem fenced_remove (hf : w.Fenced) (hwf : (w.next H c).store.WellFormed)
    (hnow : w.now ≤ c.leaseTime) (hleases : (w.next H c).leases = w.leases)
    (hclaims : ∀ id, (w.next H c).store.claims.get? id = w.store.claims.get? id ∨
      (w.next H c).store.claims.get? id = none)
    (hgens : (w.next H c).store.leaseGenerations = w.store.leaseGenerations) :
    (w.next H c).Fenced := by
  have hgen : ∀ id, (w.next H c).generation id = w.generation id := by
    intro id
    simp only [LeaseWorld.generation, hgens]
  constructor
  · exact hwf
  · intro k hk
    rw [hgen]
    exact hf.bounded k (hleases ▸ hk)
  · intro k hk k' hk'
    exact hf.unique k (hleases ▸ hk) k' (hleases ▸ hk')
  · intro k hk hg
    rw [hgen] at hg
    have hold := hf.claimed k (Holds.before hk (hleases ▸ hk.1)) hg
    rcases hclaims k.jobId with h | h
    · rw [h, hold]
    · -- A claim that is gone would have been recorded as dropped.
      exact absurd (List.mem_append_right _ (mem_droppedClaims.mpr ⟨h, k, hold, rfl⟩)) hk.2
  · intro k hk hlive
    rw [hgen]
    exact hf.newest k (Holds.before hk (hleases ▸ hk.1)) (hnow.trans_lt hlive)
  · intro id k hk
    rw [hgen]
    rcases hclaims id with h | h
    · obtain ⟨rfl, hh, hg⟩ := hf.table id k (h ▸ hk)
      exact ⟨rfl, ⟨hleases ▸ hh.1, not_dropped_next hk hh.2⟩, hg⟩
    · rw [h] at hk
      cases hk
  · exact past_next hf fun id => (hgen id).ge

/-- Every call at a time the clock has not passed keeps the invariant. -/
theorem LeaseStep.fenced {w' : LeaseWorld} (hf : w.Fenced) (h : LeaseStep H w c w') : w'.Fenced := by
  obtain ⟨hfresh, hnow, rfl⟩ := h
  have hstep : StoreStep H w.store c (w.next H c).store := ⟨hfresh, rfl⟩
  have hwf := hstep.wellFormed hf.wellFormed
  cases hstep.leaseEffect hf.wellFormed with
  | claim l hr hgen hfree hclaims hgens => exact fenced_claim hf hwf hnow hr hgen hfree hclaims hgens
  | renew id current expiresAt hr hclaim _ hclaims hgens =>
    exact fenced_renew hf hwf hnow hr hclaim hclaims hgens
  | remove hr hclaims hgens => exact fenced_remove hf hwf hnow (hr _) hclaims hgens

end step

theorem run_fenced {t : Time} {calls : List Call} {w : LeaseWorld}
    (h : Run (LeaseStep H) { now := t } calls w) : w.Fenced :=
  h.preserves (fun _ _ _ _ hf hs => hs.fenced hf) (fenced_start t)

/-! ## Fencing -/

/-- The lease no longer entitles its holder at time `t`: a later claim of the job
superseded it, its holder released it or reconciliation cleared it, or its latest
renewal expired. -/
inductive LeaseWorld.Lapsed (w : LeaseWorld) (t : Time) (l : JobLease) : Prop
  | superseded (l' : JobLease) (h : l' ∈ w.leases) (hid : l'.jobId = l.jobId)
      (hlt : l.generation < l'.generation)
  | dropped (h : (l.jobId, l.generation) ∈ w.dropped)
  | expired (h : ∀ l' ∈ w.leases, l'.jobId = l.jobId → l'.generation = l.generation →
      l'.expiresAt ≤ t)

theorem leaseAdmits_some {s : MemoryJobStore} {u : JobUpdate} {t : Time} {l : JobLease}
    (hu : u.lease = some l) (h : s.leaseAdmits u t = true) :
    ∃ c, s.claims.get? u.jobId = some c ∧ l.jobId = u.jobId ∧ l.generation = c.generation ∧
      t < c.expiresAt := by
  unfold leaseAdmits at h
  rw [hu] at h
  cases hc : s.claims.get? u.jobId with
  | none => simp only [hc] at h; cases h
  | some c =>
    simp only [hc, Bool.and_eq_true, beq_iff_eq, decide_eq_true_eq] at h
    exact ⟨c, rfl, h.1.1.1.1, h.1.2, h.2⟩

theorem lapsed_not_admitted {w : LeaseWorld} (hf : w.Fenced) {u : JobUpdate} {t : Time}
    {l : JobLease} (hu : u.lease = some l) (hl : w.Lapsed t l) : w.store.leaseAdmits u t = false := by
  by_contra hn
  obtain ⟨c, hc, hid, hg, hlive⟩ := leaseAdmits_some hu (by simpa using hn)
  obtain ⟨hcid, hheld, hcgen⟩ := hf.table _ c hc
  cases hl with
  | superseded l' hl' hid' hlt =>
    have hb := hf.bounded l' hl'
    rw [hid', hid, ← hcgen, ← hg] at hb
    omega
  | dropped hd =>
    rw [hid, ← hcid, hg] at hd
    exact hheld.2 hd
  | expired h =>
    have hle := h c hheld.1 (hcid.trans hid.symm) hg.symm
    exact absurd hlive (not_lt.mpr hle)

/-- The checks `update_job` makes before it looks at the lease. -/
def JobUpdate.addresses (u : JobUpdate) (s : MemoryJobStore) : Prop :=
  ∃ current, s.ownedJob u.jobId u.ownerId = some current ∧
    (current.revision : Int) = u.expectedRevision

theorem updateJob_refused {s : MemoryJobStore} {u : JobUpdate} {clk : Clock}
    (h : s.leaseAdmits u (clk 0) = false) :
    ∃ e, s.updateJob u clk = (.error e, s) ∧ (u.addresses s → e = .staleLease) := by
  cases hjob : s.ownedJob u.jobId u.ownerId with
  | none =>
    refine ⟨.jobNotFound, by simp only [updateJob, hjob], ?_⟩
    rintro ⟨current, hc, -⟩
    rw [hjob] at hc
    cases hc
  | some current =>
    by_cases hrev : (current.revision : Int) = u.expectedRevision
    · exact ⟨.staleLease, by simp only [updateJob, hjob, hrev, h, ne_eq, not_true_eq_false,
        if_false, if_true], fun _ => rfl⟩
    · refine ⟨.staleRevision, by simp only [updateJob, hjob, ne_eq, if_pos hrev], ?_⟩
      rintro ⟨current', hc, hrev'⟩
      obtain rfl := Option.some.inj (hjob.symm.trans hc)
      exact absurd hrev' hrev

/-- The update a call asks for, when it is `update_job` or `transition_job`. -/
def StoreOp.transitions : StoreOp → Option JobUpdate
  | .updateJob u | .transitionJob u _ _ => some u
  | _ => none

/-- The event of a `transition_job` call passes validation. -/
def StoreOp.eventValid : StoreOp → Prop
  | .transitionJob _ kind data => eventDataValid kind (data.getD ∅) = true
  | _ => True

/-- A transition the lease check refuses changes nothing, and raises `StaleLease`
unless an earlier check of the same call fails. -/
theorem transition_refused {s : MemoryJobStore} {op : StoreOp} {u : JobUpdate} {clk : Clock}
    (hop : op.transitions = some u) (h : s.leaseAdmits u (clk 0) = false) :
    ∃ e, exec H s op clk = (.error e, s) ∧
      (op.eventValid → u.addresses s → e = .staleLease) := by
  obtain ⟨e, he, hstale⟩ := updateJob_refused h
  unfold StoreOp.transitions at hop
  split at hop
  · obtain rfl := Option.some.inj hop
    exact ⟨e, by simp only [exec, he, reply_error], fun _ => hstale⟩
  · next kind data =>
    obtain rfl := Option.some.inj hop
    cases hv : validatedEventData kind data with
    | error e' =>
      refine ⟨e', by simp only [exec, transitionJob, hv, reply_error], fun hvalid => ?_⟩
      simp only [StoreOp.eventValid] at hvalid
      simp [validatedEventData, hvalid] at hv
    | ok v =>
      exact ⟨e, by simp only [exec, transitionJob, hv, he, andThen_error, reply_error],
        fun _ => hstale⟩
  · cases hop

theorem transition_admitted {s : MemoryJobStore} {op : StoreOp} {u : JobUpdate} {clk : Clock}
    {r : Reply} (hop : op.transitions = some u) (h : (exec H s op clk).1 = .ok r) :
    s.leaseAdmits u (clk 0) = true := by
  by_contra hn
  obtain ⟨e, he, -⟩ := transition_refused (H := H) hop (by simpa using hn)
  rw [he] at h
  cases h

def sampleLease : JobLease :=
  { jobId := "job", ownerId := "owner", workerId := "worker", generation := 1, expiresAt := 11 }

/-- A worker claims a job for ten seconds and starts it; reconciliation finds the
lease expired and requeues the job. -/
def overtakenCalls : List Call :=
  [⟨sampleCreate, fun _ => 0⟩, ⟨.claimJob "job" "owner" "worker" 10 none, fun _ => 1⟩,
    ⟨.updateJob (sampleUpdate 0 .queued (some sampleLease)), fun _ => 2⟩,
    ⟨.updateJob (sampleUpdate 1 .ingesting (some sampleLease)), fun _ => 3⟩,
    ⟨.reconcileActiveJobs none 100, fun _ => 20⟩]

def overtaken : LeaseWorld := overtakenCalls.foldl (LeaseWorld.next plainHashes) { now := 0 }

theorem overtaken_run : Run (LeaseStep plainHashes) { now := 0 } overtakenCalls overtaken :=
  .cons ⟨rfl, by decide +kernel, rfl⟩ <| .cons ⟨trivial, by decide +kernel, rfl⟩ <|
    .cons ⟨trivial, by decide +kernel, rfl⟩ <| .cons ⟨trivial, by decide +kernel, rfl⟩ <|
      .cons ⟨trivial, by decide +kernel, rfl⟩ <| .nil _

theorem overtaken_lapsed (t : Time) : overtaken.Lapsed t sampleLease :=
  .dropped (by decide +kernel)

/-- The error a call raises. -/
def faultOf {α : Type} (answer : Except StoreFault α) : Option StoreFault :=
  match answer with
  | .error e => some e
  | .ok _ => none

end LilTweak.Store
