import LilTweak.Lib.Ledger
import LilTweak.SkillForge.Reports
import LilTweak.SkillForge.Sessions
import Mathlib

/-!
# What the library always holds

Whatever calls meet, every row compiles again to the package it was added for and holds reports of
evaluations of that package, every grant goes back to a decision of its owner, and the audit trail of a
package is the ledger of its unused grants.
-/

namespace LilTweak.SkillForge

open LilTweak.Lib

variable {H : Host}

/-! ## Rows -/

/-- A candidate and the package its draft compiles to. -/
structure Compiled (H : Host) (c : Candidate) (p : Package H.sha) : Prop where
  key : checkKey c.owner c.digest = .ok ()
  parsed : (parseJson c.draft >>= compileDraft H.sha) = .ok p
  digest : p.digest = .ok c.digest
  name : p.name = c.name
  version : p.version = c.version

theorem Compiled.openRow {r : Row} {p : Package H.sha} (h : Compiled H r.candidate p) :
    openRow H r.candidate.digest (some r) = .ok (r, p) := by
  unfold SkillForge.openRow
  dsimp only
  rw [h.parsed, ok_bind, h.digest, ok_bind, if_neg]
  rw [h.name, h.version]
  exact fun hbad => hbad.elim (· rfl) fun hbad => hbad.elim (· rfl) (· rfl)

theorem openRow_ok {digest : List Char} {found : Option Row} {r : Row} {p : Package H.sha}
    (h : openRow H digest found = .ok (r, p)) : found = some r ∧ (parseJson r.candidate.draft >>= compileDraft H.sha) = .ok p := by
  cases found with
  | none => cases h
  | some r' =>
    unfold openRow at h
    dsimp only at h
    obtain ⟨p', hp, h⟩ := of_bind_ok h
    obtain ⟨d, _, h⟩ := of_bind_ok h
    obtain ⟨_, h⟩ := unless_ok h
    obtain ⟨rfl, rfl⟩ := Prod.mk.inj (Except.ok.inj h)
    exact ⟨rfl, hp⟩

/-- A candidate compiles to one package. -/
theorem Compiled.unique {c : Candidate} {p p' : Package H.sha} (h : Compiled H c p) (h' : Compiled H c p') : p = p' :=
  Except.ok.inj (h.parsed.symm.trans h'.parsed)

/-- The text is the report of an evaluation of the candidate's package. -/
def Evaluated (H : Host) (c : Candidate) (role : String) (raw : List Char) : Prop :=
  ∃ (p : Package H.sha) (cases : List Case) (adapter : Adapter) (timeout : Option ℚ) (turns : ℕ → Turn) (report : Report),
    Compiled H c p ∧ evaluate p cases adapter role timeout turns = .ok report ∧ raw = report.toJson

/-- The two roles an evaluation has. -/
def Known (role : String) : Prop := role = "internal" ∨ role = "transfer"

/-- What the rows always are. -/
structure Shelved (H : Host) (rows : List Row) : Prop where
  keys : (rows.map fun r => (r.candidate.owner, r.candidate.digest)).Nodup
  versions : (rows.map fun r => (r.candidate.owner, r.candidate.name, r.candidate.version)).Nodup
  compiled : ∀ r ∈ rows, ∃ p, Compiled H r.candidate p
  reports : ∀ r ∈ rows, ∀ role raw, Known role → r.report role = some raw → Evaluated H r.candidate role raw

theorem isAt_iff {owner : PyStr} {digest : List Char} {r : Row} :
    r.isAt owner digest = true ↔ r.candidate.owner = owner ∧ r.candidate.digest = digest := by
  unfold Row.isAt
  rw [Bool.and_eq_true, decide_eq_true_eq, decide_eq_true_eq]

section
variable {rows : List Row} {owner : PyStr} {digest : List Char} {r r' : Row}

/-- There is one row for a key. -/
theorem Shelved.same (h : Shelved H rows) (hr : r ∈ rows) (hr' : r' ∈ rows) (hat : r.isAt owner digest = true)
    (hat' : r'.isAt owner digest = true) : r = r' := by
  obtain ⟨ho, hd⟩ := isAt_iff.mp hat
  obtain ⟨ho', hd'⟩ := isAt_iff.mp hat'
  exact List.inj_on_of_nodup_map h.keys hr hr' (by rw [ho, hd, ho', hd'])

theorem Shelved.find (h : Shelved H rows) (hr : r ∈ rows) (hat : r.isAt owner digest = true) :
    rows.find? (Row.isAt owner digest) = some r := by
  cases hfind : rows.find? (Row.isAt owner digest) with
  | none => exact absurd hat (List.find?_eq_none.mp hfind r hr)
  | some found =>
    have hsame := h.same (List.mem_of_find?_eq_some hfind) hr (List.find?_some hfind) hat
    rw [hsame]

/-- An update that keeps the candidates, and whose reports are reports of evaluations. -/
theorem Shelved.map (h : Shelved H rows) {f : Row → Row} (hcandidate : ∀ r, (f r).candidate = r.candidate)
    (hreports : ∀ r ∈ rows, ∀ role raw, Known role → (f r).report role = some raw →
      r.report role = some raw ∨ Evaluated H r.candidate role raw) : Shelved H (rows.map f) := by
  have hsame : ∀ {α : Type} (k : Candidate → α), (rows.map f).map (fun r => k r.candidate) = rows.map fun r => k r.candidate := by
    intro α k
    rw [List.map_map]
    exact List.map_congr_left fun r _ => congrArg k (hcandidate r)
  refine ⟨?_, ?_, ?_, ?_⟩
  · rw [hsame fun c => (c.owner, c.digest)]
    exact h.keys
  · rw [hsame fun c => (c.owner, c.name, c.version)]
    exact h.versions
  · intro r' hr'
    obtain ⟨r, hr, rfl⟩ := List.mem_map.mp hr'
    rw [hcandidate]
    exact h.compiled r hr
  · intro r' hr' role raw hknown hraw
    obtain ⟨r, hr, rfl⟩ := List.mem_map.mp hr'
    rw [hcandidate]
    cases hreports r hr role raw hknown hraw with
    | inl hold => exact h.reports r hr role raw hknown hold
    | inr hnew => exact hnew

theorem Shelved.insert (h : Shelved H rows) {c : Candidate} {p : Package H.sha} (hc : Compiled H c p)
    (hfresh : ∀ r ∈ rows, r.isAt c.owner c.digest = false)
    (hversion : ∀ r ∈ rows, ¬(r.candidate.owner = c.owner ∧ r.candidate.name = c.name ∧ r.candidate.version = c.version)) :
    Shelved H (rows ++ [{ candidate := c }]) := by
  refine ⟨?_, ?_, ?_, ?_⟩
  · rw [List.map_append]
    refine List.Nodup.append h.keys (List.nodup_singleton _) (List.disjoint_singleton.mpr fun hmem => ?_)
    obtain ⟨r, hr, hkey⟩ := List.mem_map.mp hmem
    obtain ⟨ho, hd⟩ := Prod.mk.inj hkey
    exact Bool.false_ne_true ((hfresh r hr).symm.trans (isAt_iff.mpr ⟨ho, hd⟩))
  · rw [List.map_append]
    refine List.Nodup.append h.versions (List.nodup_singleton _) (List.disjoint_singleton.mpr fun hmem => ?_)
    obtain ⟨r, hr, hkey⟩ := List.mem_map.mp hmem
    obtain ⟨ho, hnv⟩ := Prod.mk.inj hkey
    obtain ⟨hn, hv⟩ := Prod.mk.inj hnv
    exact hversion r hr ⟨ho, hn, hv⟩
  · intro r hr
    cases List.mem_append.mp hr with
    | inl hold => exact h.compiled r hold
    | inr hnew =>
      rw [List.mem_singleton.mp hnew]
      exact ⟨p, hc⟩
  · intro r hr role raw hknown hraw
    cases List.mem_append.mp hr with
    | inl hold => exact h.reports r hold role raw hknown hraw
    | inr hnew =>
      rw [List.mem_singleton.mp hnew] at hraw
      unfold Row.report at hraw
      split at hraw <;> cases hraw

end

/-! ## What comes later -/

/-- A row goes on: once revoked it keeps its reports. -/
structure RowLater (r r' : Row) : Prop where
  candidate : r'.candidate = r.candidate
  revision : r.revision ≤ r'.revision
  revoked : r.revoked = true →
    r'.revoked = true ∧ r'.internalReport = r.internalReport ∧ r'.transferReport = r.transferReport

theorem RowLater.refl (r : Row) : RowLater r r := ⟨rfl, le_refl _, fun h => ⟨h, rfl, rfl⟩⟩

theorem RowLater.trans {r s t : Row} (h : RowLater r s) (h' : RowLater s t) : RowLater r t :=
  ⟨h'.candidate.trans h.candidate, h.revision.trans h'.revision, fun hr => by
    obtain ⟨hs, hi, ht⟩ := h.revoked hr
    obtain ⟨hs', hi', ht'⟩ := h'.revoked hs
    exact ⟨hs', hi'.trans hi, ht'.trans ht⟩⟩

/-- What is never undone. -/
structure Later (d d' : Desk) : Prop where
  rows : ∀ r ∈ d.library.rows, ∃ r' ∈ d'.library.rows, RowLater r r'
  grants : ∀ g ∈ d.library.grants, ∃ g' ∈ d'.library.grants, g'.offer = g.offer ∧ (g.used = true → g'.used = true)
  decisions : d.decisions ⊆ d'.decisions
  readings : d.readings ⊆ d'.readings
  handed : d.handed ⊆ d'.handed

theorem Later.refl (d : Desk) : Later d d :=
  ⟨fun r hr => ⟨r, hr, .refl r⟩, fun g hg => ⟨g, hg, rfl, id⟩, List.Subset.refl _, List.Subset.refl _, List.Subset.refl _⟩

theorem Later.trans {d e f : Desk} (h : Later d e) (h' : Later e f) : Later d f := by
  refine ⟨fun r hr => ?_, fun g hg => ?_, List.Subset.trans h.decisions h'.decisions,
    List.Subset.trans h.readings h'.readings, List.Subset.trans h.handed h'.handed⟩
  · obtain ⟨s, hs, hrs⟩ := h.rows r hr
    obtain ⟨t, ht, hst⟩ := h'.rows s hs
    exact ⟨t, ht, hrs.trans hst⟩
  · obtain ⟨g₁, hg₁, ho₁, hu₁⟩ := h.grants g hg
    obtain ⟨g₂, hg₂, ho₂, hu₂⟩ := h'.grants g₁ hg₁
    exact ⟨g₂, hg₂, ho₂.trans ho₁, fun hu => hu₂ (hu₁ hu)⟩

/-! ## Grants -/

/-- The owner decided on what the grant is for, and it expires at most a quarter of an hour after some reading. -/
def Decided (d : Desk) (o : Offer) : Prop :=
  ∃ request decision, (request, decision) ∈ d.decisions ∧ decision.agrees request = true ∧
    request.owner = o.owner ∧ request.basePackageDigest = o.digest ∧ request.releaseDigest = o.releaseDigest ∧
    request.audience = o.audience ∧ request.purpose = o.purpose ∧
    decision.decisionId = o.decisionId ∧ decision.expiresAt = some o.expiresAt ∧
    ∃ now ∈ d.readings, ∃ later ∈ d.readings, now < o.expiresAt ∧ o.expiresAt ≤ later + 900

theorem Decided.later {d d' : Desk} {o : Offer} (h : Decided d o) (hlater : Later d d') : Decided d' o := by
  obtain ⟨request, decision, hmem, hagrees, ho, hd, hr, ha, hp, hid, ht, now, hnow, later, hlate, hbounds⟩ := h
  exact ⟨request, decision, hlater.decisions hmem, hagrees, ho, hd, hr, ha, hp, hid, ht, now, hlater.readings hnow, later,
    hlater.readings hlate, hbounds⟩

/-- What the grants and the handouts always are. -/
structure Granted (d : Desk) : Prop where
  tokens : (d.library.grants.map fun g => g.offer.tokenHash).Nodup
  decided : ∀ g ∈ d.library.grants, Decided d g.offer
  once : (d.handed.map fun x => x.offer.tokenHash).Nodup
  spent : ∀ x ∈ d.handed, (∃ g ∈ d.library.grants, g.offer = x.offer ∧ g.used = true) ∧ x.time < x.offer.expiresAt

/-- What the audit trail makes of an event. -/
def Event.deed? (e : Event) : Option (Deed (List Char)) :=
  if e.action = "owner_approved" then some (.approve e.detailDigest)
  else if e.action = "export" ∨ e.action = "activate" then some (.spend e.detailDigest)
  else if e.action = "evaluation_started" then some .void
  else if e.action = "revoked" then some .close
  else none

/-- The deeds the events of a package tell. -/
def trail (events : List Event) (owner : PyStr) (digest : List Char) : List (Deed (List Char)) :=
  (events.filter fun e => e.owner = owner && e.digest = digest).filterMap Event.deed?

/-- What the event of a grant says of its release. -/
def Grant.detail (H : HexSha) (g : Grant) : List Char := H.sha (encodeUtf8 g.offer.releaseDigest)

/-- The grants of a package that were not used. -/
def unusedGrants (grants : List Grant) (owner : PyStr) (digest : List Char) : List Grant :=
  grants.filter (Grant.isUnused owner digest)

/-- Their releases. -/
def unused (H : HexSha) (grants : List Grant) (owner : PyStr) (digest : List Char) : Multiset (List Char) :=
  ((unusedGrants grants owner digest).map (Grant.detail H) : List (List Char))

/-- A ledger says what is in the tables. -/
structure Balanced (H : HexSha) (L : Library) (owner : PyStr) (digest : List Char) (l : Ledger (List Char)) : Prop where
  held : l.held = unused H L.grants owner digest
  closed : ∀ r ∈ L.rows, r.isAt owner digest = true → l.closed = r.revoked
  absent : (∀ r ∈ L.rows, r.isAt owner digest = false) → l.closed = false

/-- The trail of every package leads to the ledger of its grants. -/
def Accounted (H : HexSha) (L : Library) : Prop :=
  ∀ owner digest, ∃ l, Run Ledger.Step {} (trail L.events owner digest) l ∧ Balanced H L owner digest l

/-- What the desk always holds. -/
structure Sound (H : Host) (d : Desk) : Prop where
  shelved : Shelved H d.library.rows
  granted : Granted d
  accounted : Accounted H.toHexSha d.library

theorem sound_empty : Sound H {} := by
  refine ⟨⟨List.nodup_nil, List.nodup_nil, nofun, nofun⟩, ⟨List.nodup_nil, nofun, List.nodup_nil, nofun⟩, ?_⟩
  intro owner digest
  exact ⟨{}, .nil _, rfl, nofun, fun _ => rfl⟩

end LilTweak.SkillForge
