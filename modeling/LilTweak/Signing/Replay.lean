import LilTweak.Signing.Verify
import LilTweak.Lib.Run
import Mathlib.Data.List.Pairwise
import Mathlib.Tactic.Linarith

/-!
# Replays across the retention of nonces

Sequences of deliveries to one replay hook. A nonce is kept for six hundred
seconds after the reading that stored it, and a timestamp is accepted while the
truncated clock is within three hundred seconds of it; the two windows are
compared over every pair of deliveries.
-/

namespace LilTweak.Signing

open LilTweak.Lib LilTweak.Core LilTweak.Store

/-- One delivery: the request, the readings of the clock it makes, and whether it
was accepted. -/
structure Delivery where
  request : SignedRequest
  clk : Clock
  accepted : Bool

namespace Delivery

/-- The reading the timestamp is compared with. -/
def now (d : Delivery) : Time := d.clk 0
/-- The reading expired nonces are dropped by. -/
def purge (d : Delivery) : Time := d.clk 1
/-- The reading a fresh nonce is stored with. -/
def stamp (d : Delivery) : Time := d.clk 2

/-- The pair the replay hook remembers. -/
def identity (d : Delivery) : String × String := (d.request.fields.keyId, d.request.fields.nonce)

end Delivery

/-- One delivery to the hook. -/
def Delivers (P : Primitives) (keys : String → Option (List UInt8)) (maxClockSkew : Int)
    (s : MemoryJobStore) (d : Delivery) (s' : MemoryJobStore) : Prop :=
  (verifyRequest P keys maxClockSkew s d.request d.clk).2 = s' ∧
    (d.accepted = true ↔ (verifyRequest P keys maxClockSkew s d.request d.clk).1 = .ok ())

/-- The readings of the deliveries come from one non-decreasing clock. -/
structure Clocked (l : List Delivery) : Prop where
  within : ∀ d ∈ l, d.now ≤ d.purge ∧ d.purge ≤ d.stamp
  across : l.Pairwise fun a b => a.stamp ≤ b.purge

/-- No two deliveries with the same signed fields are both accepted. -/
def NoneAcceptedTwice (l : List Delivery) : Prop :=
  l.Pairwise fun a b => a.request.fields = b.request.fields →
    ¬(a.accepted = true ∧ b.accepted = true)

/-- Whenever the same signed fields pass authentication twice, the second delivery
drops expired nonces less than six hundred seconds after the first stored its own. -/
def RetriedInTime (P : Primitives) (keys : String → Option (List UInt8)) (maxClockSkew : Int)
    (l : List Delivery) : Prop :=
  l.Pairwise fun a b => a.request.fields = b.request.fields →
    authentic P keys maxClockSkew a.request a.now = true →
    authentic P keys maxClockSkew b.request b.now = true → b.purge < a.stamp + 600

/-- Authentic requests that share a key and a nonce are the same request. -/
def NoncesUnshared (P : Primitives) (keys : String → Option (List UInt8)) (maxClockSkew : Int)
    (l : List Delivery) : Prop :=
  ∀ a ∈ l, ∀ b ∈ l, authentic P keys maxClockSkew a.request a.now = true →
    authentic P keys maxClockSkew b.request b.now = true → a.identity = b.identity →
    a.request.fields = b.request.fields

variable {P : Primitives} {keys : String → Option (List UInt8)} {maxClockSkew : Int}

/-! ## One delivery -/

/-- A delivery that fails authentication leaves the store as it is. -/
theorem verifyRequest_forged {s : MemoryJobStore} {r : SignedRequest} {clk : Clock}
    (h : authentic P keys maxClockSkew r (clk 0) = false) :
    verifyRequest P keys maxClockSkew s r clk = (.error .authentication, s) := by
  simp [verifyRequest, h]

theorem field_ne_empty {value v : String} (h : Primitives.field value = some v) : value ≠ "" := by
  rintro rfl
  simp [Primitives.field] at h

/-- An authentic request carries a key id and a nonce. -/
theorem authentic_identity {r : SignedRequest} {now : Time}
    (h : authentic P keys maxClockSkew r now = true) :
    r.fields.keyId ≠ "" ∧ r.fields.nonce ≠ "" := by
  have hmsg : ∃ m, P.canonicalRequest r.fields = some m := by
    unfold authentic at h
    split at h
    · next key _ _ =>
      cases hm : P.canonicalRequest r.fields with
      | some m => exact ⟨m, rfl⟩
      | none =>
        have hs : P.signRequest key r.fields = none := by
          simp only [Primitives.signRequest, hm, Option.map_none, ite_self]
        rw [hs] at h
        cases h
    · cases h
  obtain ⟨m, hm⟩ := hmsg
  simp only [Primitives.canonicalRequest, bind, Option.bind_eq_some_iff] at hm
  obtain ⟨_, hkey, _, _, _, _, _, hnonce, _⟩ := hm
  exact ⟨field_ne_empty hkey, field_ne_empty hnonce⟩

section
variable {s : MemoryJobStore} {d : Delivery}

/-- An authentic delivery of a remembered nonce. -/
theorem verifyRequest_seen (ha : authentic P keys maxClockSkew d.request d.now = true)
    (hblank : ¬(d.request.fields.keyId = "" ∨ d.request.fields.nonce = ""))
    (hin : (s.nonces.filter fun _ t => decide (d.purge - 600 < t)).contains d.identity = true) :
    verifyRequest P keys maxClockSkew s d.request d.clk = (.error .replay,
      { s with nonces := s.nonces.filter fun _ t => decide (d.purge - 600 < t) }) := by
  unfold verifyRequest
  rw [if_pos (show authentic P keys maxClockSkew d.request (d.clk 0) = true from ha)]
  unfold MemoryJobStore.consumeNonce
  rw [if_neg hblank, if_pos (by exact hin)]
  rfl

/-- An authentic delivery of a nonce that is not remembered. -/
theorem verifyRequest_fresh (ha : authentic P keys maxClockSkew d.request d.now = true)
    (hblank : ¬(d.request.fields.keyId = "" ∨ d.request.fields.nonce = ""))
    (hin : ¬(s.nonces.filter fun _ t => decide (d.purge - 600 < t)).contains d.identity = true) :
    verifyRequest P keys maxClockSkew s d.request d.clk = (.ok (), { s with
      nonces := (s.nonces.filter fun _ t => decide (d.purge - 600 < t)).set d.identity d.stamp }) := by
  unfold verifyRequest
  rw [if_pos (show authentic P keys maxClockSkew d.request (d.clk 0) = true from ha)]
  unfold MemoryJobStore.consumeNonce
  rw [if_neg hblank, if_neg (by exact hin)]
  rfl

end

/-- What a delivery does: nothing when it is not authentic; otherwise it drops the
expired nonces and is accepted exactly when its own is not among the rest. -/
theorem Delivers.cases {s s' : MemoryJobStore} {d : Delivery}
    (h : Delivers P keys maxClockSkew s d s') :
    (authentic P keys maxClockSkew d.request d.now = false ∧ d.accepted = false ∧ s' = s) ∨
    (authentic P keys maxClockSkew d.request d.now = true ∧
      ((d.accepted = true ∧ (∀ v, s.nonces.get? d.identity = some v → v + 600 ≤ d.purge) ∧
          s'.nonces = (s.nonces.filter fun _ t => decide (d.purge - 600 < t)).set d.identity d.stamp) ∨
        (d.accepted = false ∧ (∃ v, s.nonces.get? d.identity = some v ∧ d.purge < v + 600) ∧
          s'.nonces = s.nonces.filter fun _ t => decide (d.purge - 600 < t)))) := by
  obtain ⟨rfl, hacc⟩ := h
  cases ha : authentic P keys maxClockSkew d.request d.now with
  | false =>
    rw [verifyRequest_forged ha] at hacc ⊢
    exact .inl ⟨rfl, by simpa using hacc, rfl⟩
  | true =>
    obtain ⟨hkey, hnonce⟩ := authentic_identity ha
    have hblank : ¬(d.request.fields.keyId = "" ∨ d.request.fields.nonce = "") := by
      simp [hkey, hnonce]
    refine .inr ⟨rfl, ?_⟩
    by_cases hin : (s.nonces.filter fun _ t => decide (d.purge - 600 < t)).contains d.identity = true
    · have hv := verifyRequest_seen ha hblank hin
      rw [hv] at hacc ⊢
      obtain ⟨v, hkv⟩ := (Dict.contains_iff _ _).mp hin
      rw [Dict.get?_filter, Option.filter_eq_some_iff] at hkv
      refine .inr ⟨by simpa using hacc, ⟨v, hkv.1, ?_⟩, rfl⟩
      simpa [sub_lt_iff_lt_add] using hkv.2
    · have hv := verifyRequest_fresh ha hblank hin
      rw [hv] at hacc ⊢
      refine .inl ⟨by simpa using hacc, fun v hkv => ?_, rfl⟩
      by_contra hlt
      refine hin ((Dict.contains_iff _ _).mpr ⟨v, ?_⟩)
      rw [Dict.get?_filter, hkv]
      simp [Option.filter, sub_lt_iff_lt_add, not_le.mp hlt]

/-- An accepted delivery is authentic. -/
theorem Delivers.authentic {s s' : MemoryJobStore} {d : Delivery}
    (h : Delivers P keys maxClockSkew s d s') (ha : d.accepted = true) :
    authentic P keys maxClockSkew d.request d.now = true := by
  rcases h.cases with ⟨-, hn, -⟩ | ⟨h, -⟩
  · rw [ha] at hn; cases hn
  · exact h

theorem run_authentic {s t : MemoryJobStore} {l : List Delivery}
    (h : Run (Delivers P keys maxClockSkew) s l t) :
    ∀ d ∈ l, d.accepted = true → Signing.authentic P keys maxClockSkew d.request d.now = true := by
  induction h with
  | nil _ => intro d hd; cases hd
  | cons hs _ ih =>
    intro d hd ha
    rcases List.mem_cons.mp hd with rfl | hd
    · exact hs.authentic ha
    · exact ih d hd ha

/-! ## What the table remembers -/

theorem Clocked.sublist {l m : List Delivery} (h : Clocked m) (hs : l.Sublist m) : Clocked l where
  within d hd := h.within d (hs.subset hd)
  across := h.across.sublist hs

/-- A nonce stays remembered until a delivery six hundred seconds after its stamp:
before that no delivery of it is accepted. -/
theorem remembered {s t : MemoryJobStore} {l : List Delivery}
    (h : Run (Delivers P keys maxClockSkew) s l t) (hclk : Clocked l) {id : String × String} {v : Time}
    (hv : s.nonces.get? id = some v) {b : Delivery} (hb : b ∈ l) (hid : b.identity = id)
    (hacc : b.accepted = true) : v + 600 ≤ b.purge := by
  induction h with
  | nil _ => cases hb
  | @cons s u t a l hs hr ih =>
    by_cases hlate : v + 600 ≤ a.purge
    · rcases List.mem_cons.mp hb with rfl | hb'
      · exact hlate
      · have h1 := (hclk.within a List.mem_cons_self).2
        have h2 := (List.pairwise_cons.mp hclk.across).1 b hb'
        exact hlate.trans (h1.trans h2)
    · have hfilter : (s.nonces.filter fun _ t => decide (a.purge - 600 < t)).get? id = some v := by
        rw [Dict.get?_filter, hv]
        simp [Option.filter, sub_lt_iff_lt_add, not_le.mp hlate]
      have hkept : u.nonces.get? id = some v := by
        rcases hs.cases with ⟨-, -, rfl⟩ | ⟨-, ⟨-, hfree, hn⟩ | ⟨-, -, hn⟩⟩
        · exact hv
        · have hne : id ≠ a.identity := fun e => hlate (hfree v (e ▸ hv))
          rw [hn, Dict.get?_set_ne _ _ hne, hfilter]
        · rw [hn, hfilter]
      rcases List.mem_cons.mp hb with rfl | hb'
      · rcases hs.cases with ⟨-, hn, -⟩ | ⟨-, ⟨-, hfree, -⟩ | ⟨hn, -⟩⟩
        · rw [hacc] at hn; cases hn
        · exact hfree v (hid.symm ▸ hv)
        · rw [hacc] at hn; cases hn
      · exact ih (hclk.sublist (List.sublist_cons_self _ _)) hkept hb'

/-- Every entry of the table was stored by an accepted delivery, or was there before. -/
theorem provenance {s t : MemoryJobStore} {l : List Delivery}
    (h : Run (Delivers P keys maxClockSkew) s l t) {id : String × String} {v : Time}
    (hv : t.nonces.get? id = some v) :
    s.nonces.get? id = some v ∨ ∃ d ∈ l, d.accepted = true ∧ d.identity = id ∧ d.stamp = v := by
  induction h with
  | nil _ => exact .inl hv
  | @cons s u t a l hs hr ih =>
    rcases ih hv with hu | ⟨d, hd, hacc, hid, hst⟩
    · rcases hs.cases with ⟨-, -, rfl⟩ | ⟨-, ⟨hacc, -, hn⟩ | ⟨-, -, hn⟩⟩
      · exact .inl hu
      · rw [hn, Dict.get?_set] at hu
        by_cases hid : id = a.identity
        · rw [if_pos hid] at hu
          exact .inr ⟨a, List.mem_cons_self, hacc, hid.symm, Option.some.inj hu⟩
        · rw [if_neg hid, Dict.get?_filter, Option.filter_eq_some_iff] at hu
          exact .inl hu.1
      · rw [hn, Dict.get?_filter, Option.filter_eq_some_iff] at hu
        exact .inl hu.1
    · exact .inr ⟨d, List.mem_cons_of_mem _ hd, hacc, hid, hst⟩

/-- Right after an authentic delivery an accepted one of its nonce is on record,
stamped no later. -/
theorem recorded {s t : MemoryJobStore} {l : List Delivery} {a : Delivery}
    (h : Run (Delivers P keys maxClockSkew) {} l s) (hs : Delivers P keys maxClockSkew s a t)
    (hclk : Clocked (l ++ [a])) (ha : authentic P keys maxClockSkew a.request a.now = true) :
    ∃ d ∈ l ++ [a], d.accepted = true ∧ d.identity = a.identity ∧ d.stamp ≤ a.stamp := by
  rcases hs.cases with ⟨hn, -, -⟩ | ⟨-, ⟨hacc, -, -⟩ | ⟨-, ⟨v, hv, -⟩, -⟩⟩
  · rw [ha] at hn; cases hn
  · exact ⟨a, by simp, hacc, rfl, le_refl _⟩
  · rcases provenance h hv with h0 | ⟨d, hd, hacc, hid, rfl⟩
    · cases h0
    · refine ⟨d, List.mem_append_left _ hd, hacc, hid, ?_⟩
      have h1 := (List.pairwise_append.mp hclk.across).2.2 d hd a (by simp)
      exact h1.trans (hclk.within a (by simp)).2

/-! ## Both windows -/

theorem retried_in_time_safe {s t : MemoryJobStore} {l : List Delivery}
    (h : Run (Delivers P keys maxClockSkew) s l t) (hclk : Clocked l)
    (hin : RetriedInTime P keys maxClockSkew l) : NoneAcceptedTwice l := by
  induction h with
  | nil _ => exact .nil
  | @cons s u t a l hs hr ih =>
    have hin' := List.pairwise_cons.mp hin
    refine List.pairwise_cons.mpr ⟨fun b hb hsame hacc => ?_, ih (hclk.sublist (List.sublist_cons_self _ _)) hin'.2⟩
    have hid : b.identity = a.identity := by simp only [Delivery.identity, hsame]
    have hstored : u.nonces.get? a.identity = some a.stamp := by
      rcases hs.cases with ⟨-, hn, -⟩ | ⟨-, ⟨-, -, hn⟩ | ⟨hn, -, -⟩⟩
      · rw [hacc.1] at hn; cases hn
      · rw [hn, Dict.get?_set_self]
      · rw [hacc.1] at hn; cases hn
    have hlate := remembered hr (hclk.sublist (List.sublist_cons_self _ _)) hstored hb hid hacc.2
    have hearly := hin'.1 b hb hsame (hs.authentic hacc.1) (run_authentic hr b hb hacc.2)
    exact absurd hlate (not_le.mpr hearly)

/-- A relation that holds across every split of a list holds pairwise. -/
theorem pairwise_of_splits {α : Type*} {R : α → α → Prop} {l : List α}
    (h : ∀ l₁ a l₂ b l₃, l = l₁ ++ a :: (l₂ ++ b :: l₃) → R a b) : l.Pairwise R := by
  induction l with
  | nil => exact .nil
  | cons a l ih =>
    refine List.pairwise_cons.mpr ⟨fun b hb => ?_, ih fun l₁ x l₂ y l₃ hl => ?_⟩
    · obtain ⟨l₂, l₃, rfl⟩ := List.append_of_mem hb
      exact h [] a l₂ b l₃ rfl
    · exact h (a :: l₁) x l₂ y l₃ (by rw [hl, List.cons_append])

theorem accepted_once_retried_in_time {t : MemoryJobStore} {l : List Delivery}
    (h : Run (Delivers P keys maxClockSkew) {} l t) (hclk : Clocked l)
    (hunshared : NoncesUnshared P keys maxClockSkew l) (honce : NoneAcceptedTwice l) :
    RetriedInTime P keys maxClockSkew l := by
  -- Two accepted deliveries of one nonce cannot differ.
  have hunique : ∀ d ∈ l, ∀ e ∈ l, d.accepted = true → e.accepted = true →
      d.identity = e.identity → d = e := by
    intro d hd e he hdacc heacc hid
    by_contra hne
    have hsame := hunshared d hd e he (run_authentic h d hd hdacc) (run_authentic h e he heacc) hid
    have : Std.Symm fun a b : Delivery => a.request.fields = b.request.fields →
        ¬(a.accepted = true ∧ b.accepted = true) := ⟨fun a b hab e hacc => hab e.symm hacc.symm⟩
    exact honce.forall hd he hne hsame ⟨hdacc, heacc⟩
  refine pairwise_of_splits fun l₁ a l₂ b l₃ hl hsame ha hb => ?_
  by_contra hlate
  subst hl
  obtain ⟨s, h1, h'⟩ := Run.append_iff.mp h
  obtain ⟨u, hsa, h'⟩ := Run.cons_iff.mp h'
  obtain ⟨v, h2, h'⟩ := Run.append_iff.mp h'
  obtain ⟨w, hsb, -⟩ := Run.cons_iff.mp h'
  -- An accepted delivery of the nonce is on record by `a`, and is dropped by `b`.
  have hclk1 : Clocked (l₁ ++ [a]) := hclk.sublist (by simp)
  obtain ⟨d, hd, hdacc, hdid, hdst⟩ := recorded h1 hsa hclk1 ha
  have hd' : d ∈ l₁ ++ a :: (l₂ ++ b :: l₃) := by
    simp only [List.mem_append, List.mem_cons, List.not_mem_nil, or_false] at hd ⊢
    tauto
  have hbid : b.identity = d.identity := by rw [hdid]; simp only [Delivery.identity, hsame]
  have hgone : d.stamp + 600 ≤ b.purge :=
    (add_le_add_left hdst 600).trans (not_lt.mp hlate)
  have hbstamp : d.stamp < b.stamp := by
    have := (hclk.within b (by simp)).2
    linarith
  rcases hsb.cases with ⟨hn, -, -⟩ | ⟨-, ⟨hbacc, -, -⟩ | ⟨-, ⟨x, hx, hlive⟩, -⟩⟩
  · rw [hb] at hn; cases hn
  · have := hunique d hd' b (by simp) hdacc hbacc hbid.symm
    rw [this] at hbstamp
    exact lt_irrefl _ hbstamp
  · have hrun : Run (Delivers P keys maxClockSkew) {} (l₁ ++ a :: l₂) v :=
      h1.append (.cons hsa h2)
    rcases provenance hrun hx with h0 | ⟨e, he, heacc, heid, rfl⟩
    · cases h0
    · have he' : e ∈ l₁ ++ a :: (l₂ ++ b :: l₃) := by
        simp only [List.mem_append, List.mem_cons] at he ⊢
        tauto
      have := hunique d hd' e he' hdacc heacc (hbid.symm.trans heid.symm)
      rw [this] at hgone
      exact absurd hlive (not_lt.mpr hgone)

/-- Over every sequence of deliveries on one clock: no signed fields are accepted
twice when each retry comes in time, and only then when nonces are not shared
between requests; and a delivery that is not authentic leaves the store alone. -/
theorem replay_needs_retention {t : MemoryJobStore} {l : List Delivery}
    (h : Run (Delivers P keys 300) {} l t) (hclk : Clocked l) :
    (RetriedInTime P keys 300 l → NoneAcceptedTwice l) ∧
    (NoncesUnshared P keys 300 l → NoneAcceptedTwice l → RetriedInTime P keys 300 l) ∧
    ∀ (s : MemoryJobStore) (r : SignedRequest) (clk : Clock),
      authentic P keys 300 r (clk 0) = false →
        verifyRequest P keys 300 s r clk = (.error .authentication, s) :=
  ⟨retried_in_time_safe h hclk, accepted_once_retried_in_time h hclk,
    fun _ _ _ => verifyRequest_forged⟩

/-! ## The last second of the window -/

def sampleFields : SignedFields where
  keyId := "key-1"
  method := "POST"
  pathAndQuery := "/v1/jobs"
  timestamp := "1000"
  nonce := "nonce-1"
  bodySha256 := "e3b0c44298fc1c149afbf4c8996fb92427ae41e4649b934ca495991b7852b855"
  requestId := "request-1"
  idempotencyKey := "idempotency-1"
  ownerId := "owner-1"

/-- What the standard library computes for the sample request. -/
def samplePrimitives : Primitives where
  sha256Hex _ := "e3b0c44298fc1c149afbf4c8996fb92427ae41e4649b934ca495991b7852b855"
  hmacHex _ _ := "3cd597ae6d83eecfd9c1dd3cf0fb647e69062116cbae367956df7e21edda4e80"
  parseInt _ := some 1000
  upper text := text
  lower text := text
  urlsplit path := some ⟨"", "", path, "", ""⟩
  parseQsl _ := []
  quote text := text
  urlunsplit path _ := path

/-- The sample request is signed under the key `secret`. -/
def sampleKeys (keyId : String) : Option (List UInt8) :=
  if keyId = "key-1" then some [115, 101, 99, 114, 101, 116] else none

def sampleRequest : SignedRequest where
  fields := sampleFields
  signature := "3cd597ae6d83eecfd9c1dd3cf0fb647e69062116cbae367956df7e21edda4e80"
  body := []

/-- The sample request delivered at one reading of the clock. -/
def sampleDelivery (t : Time) : Delivery := ⟨sampleRequest, fun _ => t, true⟩

/-- A delivery is a step when its recorded answer is the one `verify_request` gives. -/
theorem delivers_of_answer {s : MemoryJobStore} {d : Delivery}
    (h : (match (verifyRequest P keys maxClockSkew s d.request d.clk).1 with
      | .ok _ => true
      | .error _ => false) = d.accepted) :
    Delivers P keys maxClockSkew s d (verifyRequest P keys maxClockSkew s d.request d.clk).2 := by
  refine ⟨rfl, ?_⟩
  rw [← h]
  split <;> simp_all

theorem replayed_run : ∃ t, Run (Delivers samplePrimitives sampleKeys 300) {}
    [sampleDelivery 700, sampleDelivery 1300] t :=
  ⟨_, .cons (delivers_of_answer (by decide +kernel)) <|
    .cons (delivers_of_answer (by decide +kernel)) <| .nil _⟩

theorem replayed_clocked : Clocked [sampleDelivery 700, sampleDelivery 1300] where
  within := by
    intro d hd
    rcases List.mem_pair.mp hd with rfl | rfl <;> exact ⟨le_refl _, le_refl _⟩
  across := by
    refine List.pairwise_pair.mpr ?_
    simp only [Delivery.stamp, Delivery.purge, sampleDelivery]
    norm_num

/-- A request accepted three hundred seconds before its timestamp is accepted again
three hundred seconds after it. -/
theorem accepted_twice_at_window_end :
    ¬∀ (l : List Delivery) (t : MemoryJobStore),
      Run (Delivers samplePrimitives sampleKeys 300) {} l t → Clocked l → NoneAcceptedTwice l := by
  intro h
  obtain ⟨t, hrun⟩ := replayed_run
  exact List.pairwise_pair.mp (h _ t hrun replayed_clocked) rfl ⟨rfl, rfl⟩

theorem replay_needs_retention_sample :
    ¬RetriedInTime samplePrimitives sampleKeys 300 [sampleDelivery 700, sampleDelivery 1300] := by
  obtain ⟨t, hrun⟩ := replayed_run
  exact fun hin => List.pairwise_pair.mp ((replay_needs_retention hrun replayed_clocked).1 hin) rfl
    ⟨rfl, rfl⟩

end LilTweak.Signing
