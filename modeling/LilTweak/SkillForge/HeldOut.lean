import LilTweak.SkillForge.Grading
import Mathlib

/-!
# Held-out tasks

The compiler drops the carriage return of a line end when it reads a text. `_validate_cases` reads the
tasks of a suite in the same way and throws the result away: it compares the tasks as they are written.
-/

namespace LilTweak.SkillForge

open LilTweak.Lib

/-! ## Normal forms -/

def carriageReturn : CodePoint := .ofChar '\r'

def lineFeed : CodePoint := .ofChar '\n'

/-- `value.replace("\r\n", "\n")`, for any `str`. -/
def normalForm : PyStr → PyStr
  | [] => []
  | c :: rest => if c = carriageReturn ∧ rest.head? = some lineFeed then normalForm rest else c :: normalForm rest

/-- A line ends with a carriage return and a line feed. -/
def HasCrLf (s : PyStr) : Prop := [carriageReturn, lineFeed] <:+: s

theorem normalForm_ofChar (chars : List Char) :
    normalForm (chars.map CodePoint.ofChar) = (normalized chars).map CodePoint.ofChar := by
  induction chars with
  | nil => rfl
  | cons c rest ih =>
    have hfirst : CodePoint.ofChar c = carriageReturn ↔ c = '\r' :=
      CodePoint.ofChar_injective.eq_iff (b := '\r')
    have hnext : (rest.map CodePoint.ofChar).head? = some lineFeed ↔ rest.head? = some '\n' := by
      cases rest with
      | nil => simp
      | cons d rest =>
        have hfeed : CodePoint.ofChar d = lineFeed ↔ d = '\n' := CodePoint.ofChar_injective.eq_iff (b := '\n')
        simpa using hfeed
    simp only [List.map_cons, normalForm, normalized, hfirst, hnext]
    split
    · exact ih
    · rw [List.map_cons, ih]

/-- The normal form is what `text` returns. -/
theorem text_normalForm {limit : ℕ} {scan : Bool} {s : PyStr} {t : List Char} (h : text limit scan (.str s) = .ok t) :
    normalForm s = t.map CodePoint.ofChar := by
  obtain ⟨chars, hvalue, _, rfl⟩ := text_ok_iff.mp h
  rw [PyJson.str.inj hvalue, normalForm_ofChar]

/-- Where no line ends with both, a text is its own normal form. -/
theorem normalForm_of_not_hasCrLf {s : PyStr} (h : ¬HasCrLf s) : normalForm s = s := by
  induction s with
  | nil => rfl
  | cons c rest ih =>
    have hrest : ¬HasCrLf rest := fun hrest => h (hrest.trans (List.suffix_cons c rest).isInfix)
    rw [normalForm, ih hrest, if_neg]
    rintro ⟨rfl, hhead⟩
    cases rest with
    | nil => cases hhead
    | cons d rest =>
      obtain rfl := Option.some.inj hhead
      exact h (List.prefix_append [carriageReturn, lineFeed] rest).isInfix

/-- Two texts of one normal form are the same, or one of them has a line that ends with both. -/
theorem eq_or_hasCrLf {s t : PyStr} (h : normalForm s = normalForm t) : s = t ∨ HasCrLf s ∨ HasCrLf t := by
  by_cases hs : HasCrLf s
  · exact .inr (.inl hs)
  by_cases ht : HasCrLf t
  · exact .inr (.inr ht)
  · rw [normalForm_of_not_hasCrLf hs, normalForm_of_not_hasCrLf ht] at h
    exact .inl h

/-! ## Accepted suites -/

/-- What holds of the cases seen so far, and of those before them. -/
structure Distinct (inputs : List PyJson) (tasks : List PyStr) (cases : List Case) : Prop where
  nodup : (tasks ++ cases.map Case.task).Nodup
  unpublished : ∀ c ∈ cases, PyJson.str c.task ∉ inputs

theorem publishes_of_mem {inputs : List PyJson} {task : PyStr} (h : PyJson.str task ∈ inputs) :
    publishes inputs task = true :=
  List.any_eq_true.mpr ⟨_, h, decide_eq_true rfl⟩

/-- The fold of `_validate_cases`, by induction on the cases. -/
theorem validateCase_foldlM {inputs : List PyJson} {cases : List Case} : ∀ {seen last : Seen},
    cases.foldlM (validateCase inputs) seen = .ok last → seen.tasks.Nodup → Distinct inputs seen.tasks cases := by
  induction cases with
  | nil => exact fun {seen last} _ hnodup => ⟨by simpa using hnodup, fun c hc => absurd hc List.not_mem_nil⟩
  | cons c rest ih =>
    intro seen last h hnodup
    rw [List.foldlM_cons] at h
    obtain ⟨seen', hcase, h⟩ := of_bind_ok h
    unfold validateCase at hcase
    obtain ⟨_, _, hcase⟩ := of_bind_ok hcase
    obtain ⟨_, _, hcase⟩ := of_bind_ok hcase
    obtain ⟨_, _, hcase⟩ := of_bind_ok hcase
    obtain ⟨hnew, hcase⟩ := unless_ok hcase
    obtain ⟨_, hcase⟩ := unless_ok hcase
    obtain rfl := Except.ok.inj hcase
    rw [not_or, not_or] at hnew
    have hnodup' : (seen.tasks ++ [c.task]).Nodup := by
      rw [List.nodup_append]
      refine ⟨hnodup, List.nodup_singleton _, fun a ha b hb => ?_⟩
      rw [List.mem_singleton.mp hb]
      exact fun hab => hnew.2.1 (hab ▸ ha)
    obtain ⟨hall, hunpublished⟩ := ih h hnodup'
    refine ⟨by simpa using hall, List.forall_mem_cons.mpr ⟨fun hmem => ?_, hunpublished⟩⟩
    exact hnew.2.2 (publishes_of_mem hmem)

section
variable {sha : Bytes → List Char}

/-- The tasks of a suite differ from each other and from the public examples as the compiler reads them. -/
structure HeldOut (inputs : List PyJson) (cases : List Case) : Prop where
  unpublished : ∀ c ∈ cases, ∀ s, PyJson.str s ∈ inputs → normalForm c.task ≠ normalForm s
  distinct : ∀ i j (hi : i < cases.length) (hj : j < cases.length), i ≠ j →
    normalForm cases[i].task ≠ normalForm cases[j].task

/-- The same of the texts with a line that ends with carriage return and line feed. -/
structure CrLfHeldOut (inputs : List PyJson) (cases : List Case) : Prop where
  unpublished : ∀ c ∈ cases, ∀ s, PyJson.str s ∈ inputs → HasCrLf c.task ∨ HasCrLf s → normalForm c.task ≠ normalForm s
  distinct : ∀ i j (hi : i < cases.length) (hj : j < cases.length), i ≠ j → HasCrLf cases[i].task →
    normalForm cases[i].task ≠ normalForm cases[j].task

/-- The tasks of an accepted suite are held out, but for those in which a line ends with carriage return and line feed. -/
theorem validateCases_heldOut_iff {p : Package sha} {cases : List Case} (h : validateCases p cases = .ok ()) :
    ∃ inputs, p.publicInputs = .ok inputs ∧ (HeldOut inputs cases ↔ CrLfHeldOut inputs cases) := by
  unfold validateCases at h
  obtain ⟨_, h⟩ := unless_ok h
  obtain ⟨inputs, hinputs, h⟩ := of_bind_ok h
  obtain ⟨seen, hseen, _⟩ := of_bind_ok h
  obtain ⟨hnodup, hunpublished⟩ := validateCase_foldlM hseen List.nodup_nil
  refine ⟨inputs, hinputs, fun hheld => ?_, fun hheld => ?_⟩
  · exact ⟨fun c hc s hs _ => hheld.unpublished c hc s hs, fun i j hi hj hij _ => hheld.distinct i j hi hj hij⟩
  · refine ⟨fun c hc s hs hsame => ?_, fun i j hi hj hij hsame => ?_⟩
    · obtain heq | hcrlf := eq_or_hasCrLf hsame
      · exact hunpublished c hc (heq ▸ hs)
      · exact hheld.unpublished c hc s hs hcrlf hsame
    · obtain heq | hcrlf | hcrlf := eq_or_hasCrLf hsame
      · rw [List.nil_append] at hnodup
        apply hij
        have hi' : i < (cases.map Case.task).length := by simpa using hi
        have hj' : j < (cases.map Case.task).length := by simpa using hj
        have htasks : (cases.map Case.task)[i] = (cases.map Case.task)[j] := by simpa using heq
        exact hnodup.getElem_inj_iff.mp htasks
      · exact hheld.distinct i j hi hj hij hcrlf hsame
      · exact hheld.distinct j i hj hi hij.symm hcrlf hsame.symm

/-- A report is only written for a suite that was accepted. -/
theorem validateCases_of_evaluate {p : Package sha} {cases : List Case} {adapter : Adapter} {role : String}
    {timeout : Option ℚ} {turns : ℕ → Turn} {report : Report}
    (h : evaluate p cases adapter role timeout turns = .ok report) : validateCases p cases = .ok () := by
  unfold evaluate at h
  obtain ⟨_, _, h⟩ := of_bind_ok h
  obtain ⟨_, hcases, _⟩ := of_bind_ok h
  exact hcases

end

theorem sortCases_valid : validateCases sortPackage sortCases = .ok () := by
  have hpassed := sort_evaluates
  cases hreport : evaluate sortPackage sortCases sortAdapter "internal" (some 30) sortTurn with
  | error e =>
    rw [hreport] at hpassed
    cases hpassed
  | ok report => exact validateCases_of_evaluate hreport

theorem validateCases_heldOut_iff_sort : ∃ inputs, sortPackage.publicInputs = .ok inputs ∧
    (HeldOut inputs sortCases ↔ CrLfHeldOut inputs sortCases) :=
  validateCases_heldOut_iff sortCases_valid

theorem mem_of_publishes {inputs : List PyJson} {task : PyStr} (h : publishes inputs task = true) :
    PyJson.str task ∈ inputs := by
  obtain ⟨input, hinput, htask⟩ := List.any_eq_true.mp h
  cases input with
  | str s =>
    obtain rfl := of_decide_eq_true htask
    exact hinput
  | _ => cases htask

/-- A suite whose first task is the public example with another line end. -/
def crlfCases : List Case :=
  ⟨PyStr.ofText "rows", PyStr.ofText "b\r\na", PyStr.ofText "a\nb", PyStr.ofText "positive"⟩ :: sortCases.tail

theorem sortPackage_publishes :
    sortPackage.publicInputs.toOption.any (fun inputs => publishes inputs (PyStr.ofText "b\na")) = true := by
  have hexamples : fileAt "tests/examples.json" sortPackage.files = .ok (encodeUtf8 sortExamples) := rfl
  unfold Package.publicInputs
  rw [hexamples, ok_bind, parseBytes_encoded]
  decide +kernel

theorem crlfCases_valid : validateCases sortPackage crlfCases = .ok () := by
  have hexamples : fileAt "tests/examples.json" sortPackage.files = .ok (encodeUtf8 sortExamples) := rfl
  unfold validateCases Package.publicInputs
  rw [hexamples, ok_bind, parseBytes_encoded]
  decide +kernel

/-- The suite is accepted with the public example as a held-out task. -/
theorem crlf_not_heldOut : validateCases sortPackage crlfCases = .ok () ∧
    ∃ inputs, sortPackage.publicInputs = .ok inputs ∧ ¬HeldOut inputs crlfCases := by
  refine ⟨crlfCases_valid, ?_⟩
  have hpublishes := sortPackage_publishes
  cases hinputs : sortPackage.publicInputs with
  | error e =>
    rw [hinputs] at hpublishes
    cases hpublishes
  | ok inputs =>
    rw [hinputs] at hpublishes
    refine ⟨inputs, rfl, fun hheld => ?_⟩
    exact hheld.unpublished _ List.mem_cons_self _ (mem_of_publishes hpublishes) (by decide +kernel)

end LilTweak.SkillForge
