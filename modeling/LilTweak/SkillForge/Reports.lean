import LilTweak.SkillForge.Library
import Mathlib

/-!
# Stored reports

A report is stored as its canonical text. Read back, its fields stand in another order and say the same, so
`_report` accepts what `evaluate` has returned for the package and the role.
-/

namespace LilTweak.SkillForge

open LilTweak.Lib

/-! ## What an evaluation returns -/

section
variable {sha : Bytes → List Char} {p : Package sha} {cases : List Case} {adapter : Adapter} {role : String}
  {timeout : Option ℚ} {turns : ℕ → Turn} {report : Report}

/-- The cases of a suite are named by identifiers. -/
theorem validateCase_ids {inputs : List PyJson} {cases : List Case} {seen seen' : Seen}
    (h : cases.foldlM (validateCase inputs) seen = .ok seen') : ∀ c ∈ cases, PyJson.Unpaired c.caseId := by
  induction cases generalizing seen with
  | nil =>
    intro c hc
    cases hc
  | cons c rest ih =>
    rw [List.foldlM_cons] at h
    obtain ⟨mid, hcase, hrest⟩ := of_bind_ok h
    unfold validateCase at hcase
    obtain ⟨_, hid, _⟩ := of_bind_ok hcase
    intro d hd
    cases List.mem_cons.mp hd with
    | inl hsame =>
      rw [hsame]
      exact readable_of_identifier hid
    | inr hmem => exact ih hrest d hmem

theorem validateCases_ok (h : validateCases p cases = .ok ()) :
    cases.length ≤ 12 ∧ ∀ c ∈ cases, PyJson.Unpaired c.caseId := by
  unfold validateCases at h
  obtain ⟨hcount, h⟩ := unless_ok h
  obtain ⟨inputs, _, h⟩ := of_bind_ok h
  obtain ⟨seen, hseen, _⟩ := of_bind_ok h
  exact ⟨by omega, validateCase_ids hseen⟩

/-- A result stands for one of the cases. -/
theorem runCases_ids {digest : List Char} {cases : List Case} : ∀ {i : ℕ} {sessions : List PyStr},
    ∀ r ∈ runCases p digest turns i sessions cases, ∃ c ∈ cases, r.caseId = c.caseId := by
  induction cases with
  | nil =>
    intro i sessions r hr
    cases hr
  | cons c rest ih =>
    intro i sessions r hr
    rw [runCases] at hr
    cases List.mem_cons.mp hr with
    | inl hsame => exact ⟨c, List.mem_cons_self, congrArg Result.caseId hsame⟩
    | inr hmem =>
      split at hmem
      · obtain ⟨d, hd, hid⟩ := ih r hmem
        exact ⟨d, List.mem_cons_of_mem c hd, hid⟩
      · cases hmem

/-- What every report of an evaluation says. -/
structure Graded (p : Package sha) (role : String) (report : Report) : Prop where
  digest : p.digest = .ok report.packageDigest
  asked : report.role = role
  known : role = "internal" ∨ role = "transfer"
  agent : report.agentId = p.originId.map CodePoint.ofChar ↔ role = "internal"
  named : PyJson.Unpaired report.agentId
  short : report.expectedCases ≤ 12
  results : ∀ r ∈ report.results, PyJson.Unpaired r.caseId

theorem evaluate_graded (h : evaluate p cases adapter role timeout turns = .ok report) : Graded p role report := by
  unfold evaluate at h
  obtain ⟨digest, hdigest, h⟩ := of_bind_ok h
  obtain ⟨_, hcases, h⟩ := of_bind_ok h
  obtain ⟨hrole, h⟩ := unless_ok h
  obtain ⟨_, h⟩ := unless_ok h
  obtain ⟨_, h⟩ := unless_ok h
  obtain ⟨_, hagent, h⟩ := of_bind_ok h
  obtain ⟨_, h⟩ := unless_ok h
  obtain ⟨hidentity, h⟩ := unless_ok h
  obtain ⟨_, h⟩ := unless_ok h
  obtain rfl := Except.ok.inj h
  obtain ⟨hcount, hids⟩ := validateCases_ok hcases
  rw [ne_eq, not_not, decide_eq_decide] at hidentity
  refine ⟨hdigest, rfl, ?_, hidentity, readable_of_identifier hagent, hcount, ?_⟩
  · by_contra hother
    rw [not_or] at hother
    exact hrole hother
  · intro r hr
    obtain ⟨c, hc, hid⟩ := runCases_ids r hr
    rw [hid]
    exact hids c hc

end

/-! ## Its text -/

theorem ofText_injective : Function.Injective PyStr.ofText := by
  intro a b h
  have ha := PyStr.text?_ofText a
  rw [h, PyStr.text?_ofText] at ha
  exact (Option.some.inj ha).symm

theorem record_keys (fields : List (String × PyJson)) :
    (record fields).map Prod.fst = (fields.map Prod.fst).map PyStr.ofText := by
  rw [record, List.map_map, List.map_map]
  rfl

theorem record_nodup {fields : List (String × PyJson)} {names : List String} (hnames : names.Nodup)
    (hfields : fields.map Prod.fst = names) : ((record fields).map Prod.fst).Nodup := by
  rw [record_keys, hfields]
  exact hnames.map ofText_injective

theorem lookup_record (name : String) (fields : List (String × PyJson)) :
    Entries.lookup (PyStr.ofText name) (record fields) = Entries.lookup name fields := by
  induction fields with
  | nil => rfl
  | cons f rest ih =>
    rw [record, List.map_cons, Entries.lookup, Entries.lookup]
    by_cases hname : f.1 = name
    · rw [if_pos (congrArg PyStr.ofText hname), if_pos hname]
    · rw [if_neg fun h => hname (ofText_injective h), if_neg hname]
      exact ih

theorem readable_record {fields : List (String × PyJson)} {names : List String} (hnames : names.Nodup)
    (hfields : fields.map Prod.fst = names) (h : ∀ f ∈ fields, f.2.Readable) : (PyJson.obj (record fields)).Readable := by
  refine ⟨record_nodup hnames hfields, PyJson.readableFields_iff.mpr ?_⟩
  intro f hf
  obtain ⟨g, hg, rfl⟩ := List.mem_map.mp hf
  exact ⟨unpaired_ofText g.1, h g hg⟩

theorem digits_short {n : ℕ} (h : n ≤ 12) : (Nat.toDigits 10 n).length ≤ 4300 := by
  have htwo : (Nat.toDigits 10 n).length ≤ 2 := by
    interval_cases n <;> decide
  omega

theorem Result.readable {r : Result} (h : PyJson.Unpaired r.caseId) : r.value.Readable := by
  apply readable_record
    (by decide : ["case_id", "passed", "reason", "request_digest", "session_digest", "output_digest"].Nodup) rfl
  intro f hf
  simp only [List.mem_cons, List.not_mem_nil, or_false] at hf
  rcases hf with rfl | rfl | rfl | rfl | rfl | rfl
  · exact h
  · trivial
  · exact unpaired_ofText _
  · exact readable_strOf _
  · exact readable_strOf _
  · exact readable_strOf _

theorem nodup_reportFields :
    ["package_digest", "suite_digest", "agent_id", "role", "results", "expected_cases", "passed"].Nodup := by decide

section
variable {sha : Bytes → List Char} {p : Package sha} {role : String} {report : Report}

theorem Graded.readable (h : Graded p role report) : (PyJson.obj report.fields).Readable := by
  apply readable_record nodup_reportFields rfl
  intro f hf
  simp only [List.mem_cons, List.not_mem_nil, or_false] at hf
  rcases hf with rfl | rfl | rfl | rfl | rfl | rfl | rfl
  · exact readable_strOf _
  · exact readable_strOf _
  · exact h.named
  · exact unpaired_ofText _
  · refine PyJson.readableItems_iff.mpr fun v hv => ?_
    obtain ⟨r, hr, rfl⟩ := List.mem_map.mp hv
    exact Result.readable (h.results r hr)
  · exact digits_short h.short
  · trivial

/-- The text of a report is read as its fields, in another order. -/
theorem Graded.parse (h : Graded p role report) : parseJson report.toJson = .ok (.obj (PyJson.ordered report.fields)) := by
  unfold parseJson Report.toJson canonicalText
  rw [PyJson.loads_sorted h.readable, PyJson.sortKeys_obj]

theorem lookup_ordered_record {fields : List (String × PyJson)} {names : List String} (hnames : names.Nodup)
    (hfields : fields.map Prod.fst = names) (name : String) :
    Entries.lookup (PyStr.ofText name) (PyJson.ordered (record fields)) = (Entries.lookup name fields).map PyJson.sortKeys := by
  rw [PyJson.lookup_ordered (record_nodup hnames hfields), lookup_record]

theorem Report.lookup (r : Report) (name : String) :
    Entries.lookup (PyStr.ofText name) (PyJson.ordered r.fields) =
      (Entries.lookup name [("package_digest", strOf r.packageDigest), ("suite_digest", strOf r.suiteDigest),
        ("agent_id", .str r.agentId), ("role", .str (PyStr.ofText r.role)), ("results", .arr (r.results.map Result.value)),
        ("expected_cases", .int r.expectedCases), ("passed", .bool r.passed)]).map PyJson.sortKeys :=
  lookup_ordered_record nodup_reportFields rfl name

/-- What a reader sees of the fields of a report. -/
theorem Report.fieldIs_ordered (r : Report) (text : PyStr) :
    fieldIs (PyJson.ordered r.fields) "role" text = decide (PyStr.ofText r.role = text) ∧
      fieldIs (PyJson.ordered r.fields) "package_digest" text = decide (r.packageDigest.map CodePoint.ofChar = text) ∧
      fieldIs (PyJson.ordered r.fields) "agent_id" text = decide (r.agentId = text) ∧
      passedTrue (PyJson.ordered r.fields) = r.passed := by
  unfold fieldIs passedTrue
  simp only [r.lookup]
  exact ⟨rfl, rfl, rfl, rfl⟩

/-- A stored report is accepted and read back. -/
theorem Graded.storedReport {H : Host} {p : Package H.sha} {r : Row} (h : Graded p role report)
    (hraw : r.report role = some report.toJson) :
    storedReport r p role = .ok (some (PyJson.ordered report.fields)) := by
  unfold SkillForge.storedReport
  rw [hraw]
  dsimp only
  rw [h.digest, ok_bind, h.parse, ok_bind]
  dsimp only
  rw [if_neg]
  rw [(report.fieldIs_ordered _).1, (report.fieldIs_ordered _).2.1, (report.fieldIs_ordered _).2.2.1, h.asked]
  simp only [decide_true, Bool.true_eq_false, false_or, ne_eq, decide_eq_decide, not_not]
  exact h.agent

end

end LilTweak.SkillForge
