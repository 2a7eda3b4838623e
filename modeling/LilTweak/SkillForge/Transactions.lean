import LilTweak.SkillForge.Custody
import Mathlib

/-!
# What each transaction keeps

Each write of the library, as it is committed, keeps what the desk holds and undoes nothing. An event is
written with every change, so the ledger of a package takes one step, or none, with each of them.
-/

namespace LilTweak.SkillForge

open LilTweak.Lib

/-! ## Events and ledgers -/

section
variable {H : HexSha} {L L' : Library} {owner : PyStr} {digest : List Char} {grants : List Grant}

theorem event_ok {action : String} {detail : List Char} (h : L.event H owner digest action detail = .ok L') :
    L' = { L with events := L.events ++ [⟨owner, digest, action, H.sha (encodeUtf8 detail)⟩] } :=
  (Except.ok.inj (unless_ok h).2).symm

theorem trail_append (events : List Event) (e : Event) (owner : PyStr) (digest : List Char) :
    trail (events ++ [e]) owner digest =
      trail events owner digest ++ if e.owner = owner ∧ e.digest = digest then e.deed?.toList else [] := by
  unfold trail
  rw [List.filter_append, List.filterMap_append]
  congr 1
  by_cases hkey : e.owner = owner ∧ e.digest = digest
  · rw [if_pos hkey, List.filter_cons_of_pos (by simpa using hkey), List.filter_nil, List.filterMap_cons]
    cases e.deed? <;> rfl
  · rw [if_neg hkey, List.filter_cons_of_neg (by simpa using hkey), List.filter_nil, List.filterMap_nil]

/-- The step the ledger of a package takes with an event. -/
def Follows (l : Ledger (List Char)) (deed? : Option (Deed (List Char))) (l' : Ledger (List Char)) : Prop :=
  match deed? with
  | none => l' = l
  | some deed => l.Step deed l'

theorem Accounted.step {e : Event} (h : Accounted H L) (hevents : L'.events = L.events ++ [e])
    (hother : ∀ owner digest l, ¬(e.owner = owner ∧ e.digest = digest) → Balanced H L owner digest l →
      Balanced H L' owner digest l)
    (hown : ∀ l, Balanced H L e.owner e.digest l → ∃ l', Follows l e.deed? l' ∧ Balanced H L' e.owner e.digest l') :
    Accounted H L' := by
  intro owner digest
  obtain ⟨l, hrun, hbalanced⟩ := h owner digest
  rw [hevents, trail_append]
  by_cases hkey : e.owner = owner ∧ e.digest = digest
  · obtain ⟨rfl, rfl⟩ := hkey
    rw [if_pos ⟨rfl, rfl⟩]
    obtain ⟨l', hfollows, hbalanced'⟩ := hown l hbalanced
    refine ⟨l', ?_, hbalanced'⟩
    unfold Follows at hfollows
    cases hdeed : e.deed? with
    | none =>
      rw [hdeed] at hfollows
      obtain rfl := hfollows
      rw [Option.toList_none, List.append_nil]
      exact hrun
    | some deed =>
      rw [hdeed] at hfollows
      exact hrun.append (.cons hfollows (.nil l'))
  · rw [if_neg hkey, List.append_nil]
    exact ⟨l, hrun, hother owner digest l hkey hbalanced⟩

theorem isUnused_iff {g : Grant} : g.isUnused owner digest = true ↔
    (g.offer.owner = owner ∧ g.offer.digest = digest) ∧ g.used = false := by
  unfold Grant.isUnused
  rw [Bool.and_eq_true, Bool.and_eq_true, decide_eq_true_eq, decide_eq_true_eq, Bool.not_eq_true']

/-- Using up some grants leaves the others unused. -/
theorem unusedGrants_useUp (p : Grant → Bool) :
    unusedGrants (grants.map fun g => if p g then { g with used := true } else g) owner digest =
      (unusedGrants grants owner digest).filter fun g => !p g := by
  unfold unusedGrants
  induction grants with
  | nil => rfl
  | cons g rest ih =>
    have hused : Grant.isUnused owner digest { g with used := true } = false := by
      unfold Grant.isUnused
      rw [Bool.not_true, Bool.and_false]
    rw [List.map_cons, List.filter_cons, List.filter_cons]
    cases hp : p g with
    | true =>
      rw [if_pos rfl, hused, if_neg Bool.false_ne_true, ih]
      split
      · rw [List.filter_cons_of_neg (by rw [hp]; exact Bool.false_ne_true)]
      · rfl
    | false =>
      rw [if_neg Bool.false_ne_true, ih]
      split
      · rw [List.filter_cons_of_pos (by rw [hp]; rfl)]
      · rfl

theorem mem_unusedGrants {g : Grant} : g ∈ unusedGrants grants owner digest ↔
    g ∈ grants ∧ (g.offer.owner = owner ∧ g.offer.digest = digest) ∧ g.used = false := by
  unfold unusedGrants
  rw [List.mem_filter, isUnused_iff]

/-- Grants of one package are no grants of another. -/
theorem unused_useUp_other {p : Grant → Bool} {owner' : PyStr} {digest' : List Char}
    (hp : ∀ g, p g = true → g.isUnused owner' digest' = true) (hkey : ¬(owner' = owner ∧ digest' = digest)) :
    unused H (grants.map fun g => if p g then { g with used := true } else g) owner digest = unused H grants owner digest := by
  unfold unused
  rw [unusedGrants_useUp, List.filter_eq_self.mpr]
  intro g hg
  obtain ⟨_, ⟨ho, hd⟩, _⟩ := mem_unusedGrants.mp hg
  rw [Bool.not_eq_true']
  cases hpg : p g with
  | false => rfl
  | true =>
    obtain ⟨⟨ho', hd'⟩, _⟩ := isUnused_iff.mp (hp g hpg)
    exact absurd ⟨ho'.symm.trans ho, hd'.symm.trans hd⟩ hkey

/-- All grants of the package are used up. -/
theorem unused_useUp_all :
    unused H (grants.map fun g => if g.isUnused owner digest then { g with used := true } else g) owner digest = 0 := by
  unfold unused
  rw [unusedGrants_useUp, List.filter_eq_nil_iff.mpr]
  · rfl
  · intro g hg
    rw [(List.mem_filter.mp hg).2]
    exact Bool.false_ne_true

/-- One grant of the package is used up. -/
theorem unused_useUp_one {p : Grant → Bool} {g : Grant} (hone : grants.filter p = [g])
    (hp : ∀ g, p g = true → g.isUnused owner digest = true) :
    g.detail H ∈ unused H grants owner digest ∧
      unused H (grants.map fun g => if p g then { g with used := true } else g) owner digest =
        (unused H grants owner digest).erase (g.detail H) := by
  have hmine : (unusedGrants grants owner digest).filter p = [g] := by
    unfold unusedGrants
    rw [List.filter_filter, ← hone]
    apply List.filter_congr
    intro x _
    cases hx : p x with
    | false => rw [Bool.false_and]
    | true => rw [hp x hx, Bool.and_self]
  have hperm := List.filter_append_perm p (unusedGrants grants owner digest)
  rw [hmine] at hperm
  have hsplit : unused H grants owner digest = g.detail H ::ₘ
      unused H (grants.map fun g => if p g then { g with used := true } else g) owner digest := by
    unfold unused
    rw [unusedGrants_useUp, Multiset.cons_coe, Multiset.coe_eq_coe]
    exact (hperm.map (Grant.detail H)).symm
  rw [hsplit, Multiset.erase_cons_head]
  exact ⟨Multiset.mem_cons_self _ _, rfl⟩

theorem isAt_of_candidate {r r' : Row} (h : r'.candidate = r.candidate) : r'.isAt owner digest = r.isAt owner digest := by
  unfold Row.isAt
  rw [h]

/-- An update that keeps which rows there are and which are revoked keeps the ledger. -/
theorem Balanced.map {l : Ledger (List Char)} {f : Row → Row} (h : Balanced H L owner digest l) (events : List Event)
    (hcandidate : ∀ r, (f r).candidate = r.candidate) (hrevoked : ∀ r ∈ L.rows, r.isAt owner digest = true → (f r).revoked = r.revoked) :
    Balanced H ⟨L.rows.map f, L.grants, events⟩ owner digest l := by
  have hat : ∀ r, (f r).isAt owner digest = r.isAt owner digest := fun r => isAt_of_candidate (hcandidate r)
  refine ⟨h.held, ?_, ?_⟩
  · intro r' hr' hat'
    obtain ⟨r, hr, rfl⟩ := List.mem_map.mp hr'
    rw [hat] at hat'
    rw [hrevoked r hr hat']
    exact h.closed r hr hat'
  · intro habsent
    refine h.absent fun r hr => ?_
    rw [← hat]
    exact habsent (f r) (List.mem_map_of_mem hr)

end

/-! ## Rows and grants that go on -/

section
variable {H : Host} {d : Desk} {L' : Library} {owner : PyStr} {digest : List Char} {role : String}

theorem later_map {rows : List Row} {f : Row → Row} (hf : ∀ r, RowLater r (f r)) :
    ∀ r ∈ rows, ∃ r' ∈ rows.map f, RowLater r r' :=
  fun r hr => ⟨f r, List.mem_map_of_mem hr, hf r⟩

theorem later_useUp {grants : List Grant} (p : Grant → Bool) :
    ∀ g ∈ grants, ∃ g' ∈ grants.map fun g => if p g then { g with used := true } else g,
      g'.offer = g.offer ∧ (g.used = true → g'.used = true) := by
  intro g hg
  refine ⟨_, List.mem_map_of_mem hg, ?_⟩
  split
  · exact ⟨rfl, fun _ => rfl⟩
  · exact ⟨rfl, id⟩

/-- Using up grants keeps where they come from. -/
theorem Granted.useUp (h : Granted d) (p : Grant → Bool) (rows : List Row) (events : List Event) :
    Granted { d with library := ⟨rows, d.library.grants.map fun g => if p g then { g with used := true } else g, events⟩ } := by
  have hsame : ∀ {α : Type} (k : Offer → α), (d.library.grants.map fun g => if p g then { g with used := true } else g).map
      (fun g => k g.offer) = d.library.grants.map fun g => k g.offer := by
    intro α k
    rw [List.map_map]
    apply List.map_congr_left
    intro g _
    dsimp only [Function.comp_apply]
    split <;> rfl
  refine ⟨?_, ?_, h.once, ?_⟩
  · dsimp only
    rw [hsame fun o => o.tokenHash]
    exact h.tokens
  · intro g' hg'
    obtain ⟨g, hg, rfl⟩ := List.mem_map.mp hg'
    have hoffer : (if p g then { g with used := true } else g).offer = g.offer := by
      split <;> rfl
    rw [hoffer]
    exact h.decided g hg
  · intro x hx
    obtain ⟨⟨g, hg, hoffer, hused⟩, htime⟩ := h.spent x hx
    obtain ⟨g', hg', hoffer', hused'⟩ := later_useUp p g hg
    exact ⟨⟨g', hg', hoffer'.trans hoffer, hused' hused⟩, htime⟩

/-! ## The transactions -/

/-- What an update keeps and leaves behind. -/
def KeptBy (H : Host) (d d' : Desk) : Prop := Sound H d' ∧ Later d d'

theorem insert_keeps {c : Candidate} {p : Package H.sha} (hd : Sound H d) (hc : Compiled H c p)
    (h : d.library.insert H.toHexSha c = .ok L') : KeptBy H d { d with library := L' } := by
  unfold Library.insert at h
  obtain ⟨hclash, h⟩ := unless_ok h
  obtain rfl := event_ok h
  have hnone : ∀ r ∈ d.library.rows, r.isAt c.owner c.digest = false ∧
      ¬(r.candidate.owner = c.owner ∧ r.candidate.name = c.name ∧ r.candidate.version = c.version) := by
    intro r hr
    have hfree : ¬(_ || _) = true := fun hbad => hclash (List.any_eq_true.mpr ⟨r, hr, hbad⟩)
    rw [Bool.or_eq_true, not_or, Bool.not_eq_true, Bool.and_eq_true, Bool.and_eq_true, decide_eq_true_eq, decide_eq_true_eq,
      decide_eq_true_eq, and_assoc] at hfree
    exact hfree
  refine ⟨⟨hd.shelved.insert hc (fun r hr => (hnone r hr).1) fun r hr => (hnone r hr).2,
    ⟨hd.granted.tokens, hd.granted.decided, hd.granted.once, hd.granted.spent⟩, ?_⟩, ?_⟩
  · refine hd.accounted.step rfl ?_ ?_
    · intro owner digest l hkey hl
      refine ⟨hl.held, ?_, ?_⟩
      · intro r hr hat
        cases List.mem_append.mp hr with
        | inl hold => exact hl.closed r hold hat
        | inr hnew =>
          rw [List.mem_singleton.mp hnew] at hat
          exact absurd (isAt_iff.mp hat) hkey
      · intro habsent
        exact hl.absent fun r hr => habsent r (List.mem_append_left _ hr)
    · intro l hl
      refine ⟨l, rfl, hl.held, ?_, fun _ => hl.absent fun r hr => (hnone r hr).1⟩
      intro r hr hat
      cases List.mem_append.mp hr with
      | inl hold => exact absurd hat (Bool.not_eq_true _ ▸ (hnone r hold).1)
      | inr hnew =>
        rw [List.mem_singleton.mp hnew]
        exact hl.absent fun r hr => (hnone r hr).1
  · exact ⟨fun r hr => ⟨r, List.mem_append_left _ hr, .refl r⟩, fun g hg => ⟨g, hg, rfl, id⟩, List.Subset.refl _,
      List.Subset.refl _, List.Subset.refl _⟩

theorem isOpen_iff {r : Row} : r.isOpen owner digest = true ↔ r.isAt owner digest = true ∧ r.revoked = false := by
  unfold Row.isOpen
  rw [Bool.and_eq_true, Bool.not_eq_true']

theorem report_withReport {r : Row} {role role' : String} {report : Option (List Char)} (hrole : Known role)
    (hrole' : Known role') : (r.withReport role report).report role' = if role' = role then report else r.report role' := by
  rcases hrole with rfl | rfl <;> rcases hrole' with rfl | rfl <;> rfl

theorem withReport_same (r : Row) (role : String) (report : Option (List Char)) :
    (r.withReport role report).candidate = r.candidate ∧ (r.withReport role report).revision = r.revision ∧
      (r.withReport role report).revoked = r.revoked := by
  unfold Row.withReport
  split <;> exact ⟨rfl, rfl, rfl⟩

/-- A row that is not revoked may change its reports. -/
theorem rowLater_open {r r' : Row} (hopen : r.revoked = false) (hcandidate : r'.candidate = r.candidate)
    (hrevision : r.revision ≤ r'.revision) : RowLater r r' :=
  ⟨hcandidate, hrevision, fun hrevoked => absurd (hopen.symm.trans hrevoked) Bool.false_ne_true⟩

/-- What holds between a row and itself, and between a row that is updated and what it becomes. -/
theorem forall_updated {P : Row → Row → Prop} {p : Row → Bool} {f : Row → Row} (hrefl : ∀ r, P r r)
    (hf : ∀ r, p r = true → P r (f r)) (r : Row) : P r (if p r then f r else r) := by
  split
  · next hp => exact hf r hp
  · exact hrefl r

theorem start_keeps {revision : ℕ} (hd : Sound H d) (hrole : Known role)
    (h : d.library.start H.toHexSha owner digest role = .ok (revision, L')) : KeptBy H d { d with library := L' } := by
  unfold Library.start at h
  cases hfind : d.library.rows.find? (Row.isOpen owner digest) with
  | none =>
    rw [hfind] at h
    cases h
  | some found =>
    rw [hfind] at h
    obtain ⟨L'', hevent, h⟩ := of_bind_ok h
    obtain ⟨-, rfl⟩ := Prod.mk.inj (Except.ok.inj h)
    obtain rfl := event_ok hevent
    obtain ⟨hat, hopen⟩ := isOpen_iff.mp (List.find?_some hfind)
    have hcandidate := forall_updated (p := Row.isOpen owner digest) (f := Row.restarted role)
      (P := fun r r' => r'.candidate = r.candidate) (fun _ => rfl) fun r _ => (withReport_same r role none).1
    have hrevoked := forall_updated (p := Row.isOpen owner digest) (f := Row.restarted role)
      (P := fun r r' => r'.revoked = r.revoked) (fun _ => rfl) fun r _ => (withReport_same r role none).2.2
    have hlater := forall_updated (p := Row.isOpen owner digest) (f := Row.restarted role) (P := RowLater) RowLater.refl
      fun r hr => rowLater_open (isOpen_iff.mp hr).2 (withReport_same r role none).1 (Nat.le_succ _)
    have hreports := forall_updated (p := Row.isOpen owner digest) (f := Row.restarted role)
      (P := fun r r' => ∀ role' raw, Known role' → r'.report role' = some raw →
        r.report role' = some raw ∨ Evaluated H r.candidate role' raw) (fun r _ _ _ hraw => .inl hraw) (by
      intro r _ role' raw hrole' hraw
      have hraw' : (r.withReport role none).report role' = some raw := hraw
      rw [report_withReport hrole hrole'] at hraw'
      split at hraw'
      · cases hraw'
      · exact .inl hraw')
    refine ⟨⟨hd.shelved.map hcandidate fun r _ => hreports r, hd.granted.useUp _ _ _, ?_⟩, ⟨later_map hlater, later_useUp _,
      List.Subset.refl _, List.Subset.refl _, List.Subset.refl _⟩⟩
    have hmap := fun owner digest l (hl : Balanced H.toHexSha d.library owner digest l) =>
      hl.map d.library.events hcandidate fun r _ _ => hrevoked r
    refine hd.accounted.step rfl ?_ ?_
    · intro owner' digest' l hkey hl
      exact ⟨hl.held.trans (unused_useUp_other (fun g hg => hg) hkey).symm, (hmap _ _ l hl).closed, (hmap _ _ l hl).absent⟩
    · intro l hl
      have hclosed : l.closed = false := (hl.closed found (List.mem_of_find?_eq_some hfind) hat).trans hopen
      exact ⟨{ l with held := 0 }, if_pos hclosed, unused_useUp_all.symm, (hmap _ _ l hl).closed, (hmap _ _ l hl).absent⟩

theorem isCurrent_iff {revision : ℕ} {r : Row} : r.isCurrent owner digest revision = true ↔
    (r.isAt owner digest = true ∧ r.revision = revision) ∧ r.revoked = false := by
  unfold Row.isCurrent
  rw [Bool.and_eq_true, Bool.and_eq_true, decide_eq_true_eq, Bool.not_eq_true']

/-- The report is one of an evaluation of the package that is kept under this key. -/
def Measured (H : Host) (d : Desk) (owner : PyStr) (digest : List Char) (role : String) (report : List Char) : Prop :=
  Known role ∧ ∃ r ∈ d.library.rows, r.isAt owner digest = true ∧ Evaluated H r.candidate role report

theorem record_keeps {revision : ℕ} {report : List Char} (hd : Sound H d) (hreport : Measured H d owner digest role report)
    (h : d.library.record H.toHexSha owner digest role revision report = .ok L') : KeptBy H d { d with library := L' } := by
  unfold Library.record at h
  obtain ⟨_, h⟩ := unless_ok h
  obtain rfl := event_ok h
  obtain ⟨hrole, measured, hmem, hat, hevaluated⟩ := hreport
  obtain ⟨f, hf⟩ : ∃ f : Row → Row, f = fun r => { r.withReport role (some report) with sourceVerified := true } := ⟨_, rfl⟩
  have hcandidate := forall_updated (p := Row.isCurrent owner digest revision) (f := f)
    (P := fun r r' => r'.candidate = r.candidate) (fun _ => rfl) fun r _ => by
      rw [hf]
      exact (withReport_same r role (some report)).1
  have hrevoked := forall_updated (p := Row.isCurrent owner digest revision) (f := f)
    (P := fun r r' => r'.revoked = r.revoked) (fun _ => rfl) fun r _ => by
      rw [hf]
      exact (withReport_same r role (some report)).2.2
  have hlater := forall_updated (p := Row.isCurrent owner digest revision) (f := f) (P := RowLater) RowLater.refl
    fun r hr => by
      rw [hf]
      exact rowLater_open (isCurrent_iff.mp hr).2 (withReport_same r role (some report)).1
        (le_of_eq (withReport_same r role (some report)).2.1.symm)
  have hreports : ∀ r ∈ d.library.rows, ∀ role' raw, Known role' →
      (if r.isCurrent owner digest revision then f r else r).report role' = some raw →
        r.report role' = some raw ∨ Evaluated H r.candidate role' raw := by
    intro r hr role' raw hrole' hraw
    split at hraw
    · next hcurrent =>
      have hraw' : (r.withReport role (some report)).report role' = some raw := by
        rw [hf] at hraw
        exact hraw
      rw [report_withReport hrole hrole'] at hraw'
      split at hraw'
      · next hsame =>
        obtain rfl := Option.some.inj hraw'
        rw [hsame, hd.shelved.same hr hmem (isCurrent_iff.mp hcurrent).1.1 hat]
        exact .inr hevaluated
      · exact .inl hraw'
    · exact .inl hraw
  rw [← hf]
  refine ⟨⟨hd.shelved.map hcandidate hreports, ⟨hd.granted.tokens, hd.granted.decided, hd.granted.once, hd.granted.spent⟩, ?_⟩,
    ⟨later_map hlater, fun g hg => ⟨g, hg, rfl, id⟩, List.Subset.refl _, List.Subset.refl _, List.Subset.refl _⟩⟩
  have hmap := fun owner digest l (hl : Balanced H.toHexSha d.library owner digest l) =>
    hl.map d.library.events hcandidate fun r _ _ => hrevoked r
  refine hd.accounted.step rfl (fun owner' digest' l _ hl => ?_) fun l hl => ⟨l, rfl, ?_⟩
  · exact ⟨hl.held, (hmap _ _ l hl).closed, (hmap _ _ l hl).absent⟩
  · exact ⟨hl.held, (hmap _ _ l hl).closed, (hmap _ _ l hl).absent⟩

theorem grant_keeps {o : Offer} (hd : Sound H d) (ho : Decided d o)
    (h : d.library.grant H.toHexSha o = .ok L') : KeptBy H d { d with library := L' } := by
  unfold Library.grant at h
  obtain ⟨hclash, h⟩ := unless_ok h
  obtain rfl := event_ok h
  have hfresh : ∀ g ∈ d.library.grants, g.offer.tokenHash ≠ o.tokenHash := fun g hg hsame =>
    hclash (List.any_eq_true.mpr ⟨g, hg, Bool.or_eq_true_iff.mpr (.inl (decide_eq_true hsame))⟩)
  refine ⟨⟨hd.shelved, ⟨?_, ?_, hd.granted.once, ?_⟩, ?_⟩, ?_⟩
  · dsimp only
    rw [List.map_append]
    refine List.Nodup.append hd.granted.tokens (List.nodup_singleton _) (List.disjoint_singleton.mpr fun hmem => ?_)
    obtain ⟨g, hg, hsame⟩ := List.mem_map.mp hmem
    exact hfresh g hg hsame
  · intro g hg
    cases List.mem_append.mp hg with
    | inl hold => exact hd.granted.decided g hold
    | inr hnew =>
      rw [List.mem_singleton.mp hnew]
      exact ho
  · intro x hx
    obtain ⟨⟨g, hg, hoffer, hused⟩, htime⟩ := hd.granted.spent x hx
    exact ⟨⟨g, List.mem_append_left _ hg, hoffer, hused⟩, htime⟩
  · have hunused : ∀ owner digest, unused H.toHexSha (d.library.grants ++ [{ offer := o }]) owner digest =
        if o.owner = owner ∧ o.digest = digest then
          H.sha (encodeUtf8 o.releaseDigest) ::ₘ unused H.toHexSha d.library.grants owner digest
        else unused H.toHexSha d.library.grants owner digest := by
      intro owner digest
      unfold unused unusedGrants
      rw [List.filter_append, List.map_append, ← Multiset.coe_add]
      have hnew : Grant.isUnused owner digest { offer := o } = true ↔ o.owner = owner ∧ o.digest = digest :=
        isUnused_iff.trans (and_iff_left rfl)
      by_cases hkey : o.owner = owner ∧ o.digest = digest
      · rw [if_pos hkey, List.filter_cons_of_pos (hnew.mpr hkey), add_comm]
        rfl
      · rw [if_neg hkey, List.filter_cons_of_neg (fun hbad => hkey (hnew.mp hbad))]
        exact add_zero _
    refine hd.accounted.step rfl (fun owner' digest' l hkey hl => ?_) fun l hl => ?_
    · exact ⟨hl.held.trans (by dsimp only; rw [hunused, if_neg hkey]), hl.closed, hl.absent⟩
    · refine ⟨{ l with held := H.sha (encodeUtf8 o.releaseDigest) ::ₘ l.held }, rfl, ?_, hl.closed, hl.absent⟩
      dsimp only
      rw [hunused, if_pos ⟨rfl, rfl⟩, hl.held]
  · exact ⟨fun r hr => ⟨r, hr, .refl r⟩, fun g hg => ⟨g, List.mem_append_left _ hg, rfl, id⟩, List.Subset.refl _,
      List.Subset.refl _, List.Subset.refl _⟩

theorem revoke_keeps (hd : Sound H d) (hrow : ∃ r ∈ d.library.rows, r.isAt owner digest = true)
    (h : d.library.revoke H.toHexSha owner digest = .ok L') : KeptBy H d { d with library := L' } := by
  unfold Library.revoke at h
  obtain rfl := event_ok h
  obtain ⟨f, hf⟩ : ∃ f : Row → Row, f = fun r => { r with revoked := true, revision := r.revision + 1 } := ⟨_, rfl⟩
  have hcandidate := forall_updated (p := Row.isAt owner digest) (f := f) (P := fun r r' => r'.candidate = r.candidate)
    (fun _ => rfl) fun r _ => by rw [hf]
  have hlater := forall_updated (p := Row.isAt owner digest) (f := f) (P := RowLater) RowLater.refl fun r _ => by
    rw [hf]
    exact ⟨rfl, Nat.le_succ _, fun _ => ⟨rfl, rfl, rfl⟩⟩
  have hreports := forall_updated (p := Row.isAt owner digest) (f := f) (P := fun r r' => ∀ role, r'.report role = r.report role)
    (fun _ _ => rfl) fun r _ role => by
      rw [hf]
      rfl
  have hisAt : ∀ owner' digest' (r : Row), Row.isAt owner' digest' (if r.isAt owner digest then f r else r) = r.isAt owner' digest' :=
    fun owner' digest' r => isAt_of_candidate (hcandidate r)
  rw [← hf]
  refine ⟨⟨hd.shelved.map hcandidate fun r _ role raw _ hraw => .inl ((hreports r role).symm.trans hraw),
    hd.granted.useUp _ _ _, ?_⟩, ⟨later_map hlater, later_useUp _, List.Subset.refl _, List.Subset.refl _, List.Subset.refl _⟩⟩
  refine hd.accounted.step rfl ?_ ?_
  · intro owner' digest' l hkey hl
    have hmap := hl.map (f := fun r => if r.isAt owner digest then f r else r) d.library.events hcandidate
      fun r _ hat => by
        rw [if_neg]
        intro hat'
        obtain ⟨ho, hd⟩ := isAt_iff.mp hat
        obtain ⟨ho', hd'⟩ := isAt_iff.mp hat'
        exact hkey ⟨ho'.symm.trans ho, hd'.symm.trans hd⟩
    exact ⟨hl.held.trans (unused_useUp_other (fun g hg => hg) hkey).symm, hmap.closed, hmap.absent⟩
  · intro l _
    refine ⟨⟨0, true⟩, rfl, unused_useUp_all.symm, ?_, ?_⟩
    · intro r' hr' hat
      obtain ⟨r, _, rfl⟩ := List.mem_map.mp hr'
      rw [hisAt] at hat
      rw [if_pos hat, hf]
    · intro habsent
      obtain ⟨r, hr, hat⟩ := hrow
      have hnone := habsent _ (List.mem_map_of_mem hr)
      rw [hisAt, hat] at hnone
      cases hnone

/-! ## A release -/

/-- What a release is made from: a row that is not revoked, whose two evaluations were passed. -/
structure Releasable (r : Row) (p : Package H.sha) (s : Status) : Prop where
  status : statusOf r p = .ok s
  revoked : r.revoked = false
  verified : r.sourceVerified = true
  internal : ∃ fields, s.internal = some fields ∧ storedReport r p "internal" = .ok (some fields) ∧ passedTrue fields = true
  transfer : ∃ fields, s.transfer = some fields ∧ storedReport r p "transfer" = .ok (some fields) ∧ passedTrue fields = true

theorem any_passed {report : Option (List (PyStr × PyJson))} (h : report.any passedTrue = true) :
    ∃ fields, report = some fields ∧ passedTrue fields = true := by
  cases report with
  | none => cases h
  | some fields => exact ⟨fields, rfl, h⟩

theorem releasable_of_status {r : Row} {p : Package H.sha} {s : Status} (h : statusOf r p = .ok s)
    (hstate : s.state = .transferVerified) : Releasable r p s := by
  have hstatus := h
  unfold statusOf at h
  obtain ⟨internal, hinternal, h⟩ := of_bind_ok h
  obtain ⟨transfer, htransfer, h⟩ := of_bind_ok h
  obtain rfl := Except.ok.inj h
  dsimp only at hstate
  split at hstate
  · cases hstate
  · next hopen =>
    split at hstate
    · next hpassed =>
      split at hstate
      · next hpassed' =>
        obtain ⟨fields, rfl, hfields⟩ := any_passed hpassed.1
        obtain ⟨fields', rfl, hfields'⟩ := any_passed hpassed'
        exact ⟨hstatus, Bool.not_eq_true _ ▸ hopen, hpassed.2, ⟨fields, rfl, hinternal, hfields⟩,
          ⟨fields', rfl, htransfer, hfields'⟩⟩
      · cases hstate
    · cases hstate

/-- A release is the evidence attached to the package, and verifies to its digest. -/
structure Assembled (H : Host) (r : Row) (p : Package H.sha) (s : Status) (release : Release) : Prop where
  files : attachEvidence p (evidenceOf r.candidate.digest s) = .ok release.files
  digest : verifyPackage H.sha release.files none = .ok release.digest
  archive : archiveOf H p.name release.files = .ok release.archive

theorem assemble_ok {r : Row} {p : Package H.sha} {s : Status} {release : Release} (hs : statusOf r p = .ok s)
    (h : assemble r p = .ok release) : Assembled H r p s release := by
  unfold assemble at h
  rw [hs, ok_bind] at h
  obtain ⟨files, hfiles, h⟩ := of_bind_ok h
  obtain ⟨digest, hdigest, h⟩ := of_bind_ok h
  obtain ⟨archive, harchive, h⟩ := of_bind_ok h
  obtain rfl := Except.ok.inj h
  exact ⟨hfiles, hdigest, harchive⟩

/-- A release comes from a row of the library that could be released. -/
def ReleasedFrom (H : Host) (L : Library) (owner : PyStr) (digest : List Char) (p : Package H.sha) (release : Release) : Prop :=
  ∃ r ∈ L.rows, ∃ s, r.isAt owner digest = true ∧ Compiled H r.candidate p ∧ Releasable r p s ∧ Assembled H r p s release

theorem release_ok {L : Library} {p : Package H.sha} {release : Release} {verifier : VerifierAnswer} (hL : Shelved H L.rows)
    (h : L.release H owner digest verifier = .ok (p, release)) : ReleasedFrom H L owner digest p release := by
  unfold Library.release at h
  obtain ⟨_, _, h⟩ := of_bind_ok h
  obtain ⟨⟨r, p'⟩, hopen, h⟩ := of_bind_ok h
  obtain ⟨s, hs, h⟩ := of_bind_ok h
  obtain ⟨hstate, h⟩ := unless_ok h
  obtain ⟨_, _, h⟩ := of_bind_ok h
  obtain ⟨_, h⟩ := unless_ok h
  obtain ⟨_, _, h⟩ := of_bind_ok h
  obtain ⟨release', hrelease, h⟩ := of_bind_ok h
  obtain ⟨rfl, rfl⟩ := Prod.mk.inj (Except.ok.inj h)
  obtain ⟨hfind, hparsed⟩ := openRow_ok hopen
  have hmem := List.mem_of_find?_eq_some hfind
  obtain ⟨p, hp⟩ := hL.compiled r hmem
  obtain rfl := Except.ok.inj (hp.parsed.symm.trans hparsed)
  exact ⟨r, hmem, s, List.find?_some hfind, hp, releasable_of_status hs (not_not.mp hstate), assemble_ok hs hrelease⟩

/-- What was handed out: a release of the library for which one grant was left. -/
structure HandedOut (H : Host) (d : Desk) (owner : PyStr) (digest : List Char) (audience : PyStr) (token : List Char)
    (purpose : PyStr) (now : ℚ) (p : Package H.sha) (release : Release) (g : Grant) : Prop where
  released : ReleasedFrom H d.library owner digest p release
  mem : g ∈ d.library.grants
  serves : g.serves H.toHexSha owner digest audience token purpose release.digest now = true

theorem serves_iff {H : HexSha} {audience : PyStr} {token : List Char} {purpose : PyStr} {releaseDigest : List Char} {now : ℚ}
    {g : Grant} : g.serves H owner digest audience token purpose releaseDigest now = true ↔
      g.offer.tokenHash = H.sha (encodeUtf8 token) ∧ g.offer.owner = owner ∧ g.offer.digest = digest ∧
        g.offer.releaseDigest = releaseDigest ∧ g.offer.audience = audience ∧ g.offer.purpose = purpose ∧
        now < g.offer.expiresAt ∧ g.used = false := by
  unfold Grant.serves
  simp only [Bool.and_eq_true, decide_eq_true_eq, Bool.not_eq_true', and_assoc]

theorem consume_keeps {audience : PyStr} {token : List Char} {purpose : PyStr} {verifier : VerifierAnswer} {now : ℚ}
    {p : Package H.sha} {release : Release} {o : Offer} (hd : Sound H d)
    (h : d.library.consume H owner digest audience token purpose verifier now = .ok ((p, release), o, L')) :
    KeptBy H d { d with library := L', handed := d.handed ++ [⟨o, now⟩] } ∧
      ∃ g, HandedOut H d owner digest audience token purpose now p release g ∧ o = g.offer := by
  unfold Library.consume at h
  obtain ⟨⟨p', release'⟩, hrelease, h⟩ := of_bind_ok h
  dsimp only at h
  split at h
  next g hone =>
    obtain ⟨L'', hevent, h⟩ := of_bind_ok h
    obtain ⟨hpr, horest⟩ := Prod.mk.inj (Except.ok.inj h)
    obtain ⟨rfl, rfl⟩ := Prod.mk.inj hpr
    obtain ⟨rfl, rfl⟩ := Prod.mk.inj horest
    obtain rfl := event_ok hevent
    have hmem : g ∈ d.library.grants.filter (Grant.serves H.toHexSha owner digest audience token purpose release'.digest now) := by
      rw [hone]
      exact List.mem_singleton_self g
    obtain ⟨hg, hserves⟩ := List.mem_filter.mp hmem
    have hreleased := release_ok hd.shelved hrelease
    have hout : HandedOut H d owner digest audience token purpose now p' release' g := ⟨hreleased, hg, hserves⟩
    have hunused : ∀ g, Grant.serves H.toHexSha owner digest audience token purpose release'.digest now g = true →
        g.isUnused owner digest = true := by
      intro g hserves
      obtain ⟨_, ho, hd, _, _, _, _, hfree⟩ := serves_iff.mp hserves
      exact isUnused_iff.mpr ⟨⟨ho, hd⟩, hfree⟩
    obtain ⟨htoken, _, _, hdetail, _, _, hnow, hfree⟩ := serves_iff.mp hserves
    have hold := hd.granted.useUp (Grant.serves H.toHexSha owner digest audience token purpose release'.digest now)
      d.library.rows (d.library.events ++ [⟨owner, digest, if purpose = PyStr.ofText "export" then "export" else "activate",
        H.sha (encodeUtf8 release'.digest)⟩])
    refine ⟨⟨⟨hd.shelved, ⟨hold.tokens, hold.decided, ?_, ?_⟩, ?_⟩, ?_⟩, g, hout, rfl⟩
    · rw [List.map_append]
      refine List.Nodup.append hd.granted.once (List.nodup_singleton _) (List.disjoint_singleton.mpr fun hmem => ?_)
      obtain ⟨x, hx, hsame⟩ := List.mem_map.mp hmem
      obtain ⟨⟨g', hg', hoffer, hused⟩, _⟩ := hd.granted.spent x hx
      have hgg : g' = g := List.inj_on_of_nodup_map hd.granted.tokens hg' hg (by rw [hoffer]; exact hsame)
      rw [hgg, hfree] at hused
      cases hused
    · intro x hx
      cases List.mem_append.mp hx with
      | inl hx => exact hold.spent x hx
      | inr hx =>
        rw [List.mem_singleton.mp hx]
        refine ⟨⟨{ g with used := true }, List.mem_map.mpr ⟨g, hg, if_pos hserves⟩, rfl, rfl⟩, hnow⟩
    · refine hd.accounted.step rfl ?_ ?_
      · intro owner' digest' l hkey hl
        exact ⟨hl.held.trans (unused_useUp_other hunused hkey).symm, hl.closed, hl.absent⟩
      · intro l hl
        obtain ⟨r, hr, s, hat, _, hreleasable, _⟩ := hreleased
        obtain ⟨hin, herase⟩ := unused_useUp_one (H := H.toHexSha) hone hunused
        have hevent : Grant.detail H.toHexSha g = H.sha (encodeUtf8 release'.digest) := by
          unfold Grant.detail
          rw [hdetail]
        rw [hevent] at hin herase
        have hclosed : l.closed = false := (hl.closed r hr hat).trans hreleasable.revoked
        refine ⟨{ l with held := l.held.erase (H.sha (encodeUtf8 release'.digest)) }, ?_, ?_, hl.closed, hl.absent⟩
        · have hdeed : Event.deed? ⟨owner, digest, if purpose = PyStr.ofText "export" then "export" else "activate",
              H.sha (encodeUtf8 release'.digest)⟩ = some (.spend (H.sha (encodeUtf8 release'.digest))) := by
            unfold Event.deed?
            dsimp only
            split <;> rfl
          unfold Follows
          rw [hdeed]
          exact if_pos ⟨hclosed, hl.held ▸ hin⟩
        · exact (congrArg (fun m => Multiset.erase m _) hl.held).trans herase.symm
    · exact ⟨fun r hr => ⟨r, hr, .refl r⟩, later_useUp _, List.Subset.refl _, List.Subset.refl _,
        List.subset_append_left _ _⟩
  next => cases h

end

end LilTweak.SkillForge
