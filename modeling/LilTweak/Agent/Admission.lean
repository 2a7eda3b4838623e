import LilTweak.Agent.Cuts
import LilTweak.Agent.Observations
import Mathlib

/-!
# What admission reserves

An execution is admitted when there is room for all the output its sandbox may return and for one more
entry behind its own. So its observation is recorded as the sandbox returned it, and the entry that says
that the capacity is used up, which is the last one, has a place.
-/

namespace LilTweak.Agent

open LilTweak.Lib LilTweak.Core LilTweak.Worlds

/-- The bytes of output an observation keeps. -/
def Observation.retained (o : Observation) : Nat := o.stdout.utf8ByteSize + o.stderr.utf8ByteSize

/-- An execution as the sandbox returned it. -/
def Observation.unclipped (operation : String) (command : List String) (r : CommandResult) : Observation :=
  { operation, command, exitCode := r.exitCode, timedOut := r.timedOut, truncated := r.truncated
    stdout := r.stdout, stderr := r.stderr }

/-- A result keeps to the output limit of the sandbox. -/
def Budget.Allows (b : Budget) (r : CommandResult) : Prop :=
  r.stdout.utf8ByteSize + r.stderr.utf8ByteSize ≤ b.maxOutputBytes

/-- What the sandbox returns in a call keeps to its output limit. -/
def WorkspaceTools.ToolCall.Bounded {W : Type} (b : Budget) : ToolCall W → Prop
  | .runCommand _ (.ok r) => b.Allows r
  | .applyPatch (.staged r _) => b.Allows r
  | _ => True

namespace WorkspaceTools

variable {W : Type} (b : Budget) (t : WorkspaceTools W)

/-- The observation a call is owed: what the sandbox returned, if the execution is admitted. -/
def owed : ToolCall W → List Observation
  | .runCommand command (.ok r) => if t.hasRoom b = true then [.unclipped "run_command" command r] else []
  | .applyPatch (.staged r _) => if t.hasRoom b = true then [.unclipped "apply_patch" patchCommand r] else []
  | _ => []

/-- The observations of the admitted executions among some calls. -/
def admitted : WorkspaceTools W → List (ToolCall W) → List Observation
  | _, [] => []
  | t, call :: calls => t.owed b call ++ admitted (t.execute b call) calls

/-- The entry that says that the capacity is used up. -/
def Terminal (o : Observation) : Prop := o.exitCode = none ∧ o.stdout = "" ∧ o.stderr.toList <+: "observation_capacity".toList

/-- The observations are those of the admitted executions and at most one terminal entry behind them. -/
structure Accounted (executions : List Observation) : Prop where
  recorded : ∃ terminal, t.commandObservations = executions ++ terminal ∧ terminal.length ≤ 1 ∧
    (∀ o ∈ terminal, Terminal o) ∧ (terminal ≠ [] → t.observationTerminalRecorded = true)
  closed : t.observationTerminalRecorded = true → t.observationsClosed = true
  counted : t.observedOutputBytes = (t.commandObservations.map Observation.retained).sum
  bytes : t.observedOutputBytes ≤ b.maxObservedOutputBytes
  entries : t.commandObservations.length ≤ b.maxObservations

variable {b t} {executions : List Observation}

theorem hasRoom_iff : t.hasRoom b = true ↔ t.observationsClosed = false ∧
    t.commandObservations.length + 1 < b.maxObservations ∧
    t.observedOutputBytes + b.maxOutputBytes ≤ b.maxObservedOutputBytes := by
  unfold hasRoom
  rw [Bool.and_eq_true, Bool.and_eq_true, Bool.not_eq_true', decide_eq_true_eq, decide_eq_true_eq, and_assoc]

@[simp] theorem observe_closed (operation : String) (command : List String) (r : CommandResult) :
    (t.observe b operation command r).observationsClosed = t.observationsClosed := by
  unfold observe
  split <;> rfl

@[simp] theorem recordCapacity_closed (operation : String) (command : List String) :
    (t.recordCapacity b operation command).observationsClosed = t.observationsClosed := by
  unfold recordCapacity
  split
  · rfl
  · exact observe_closed operation command _

/-- With room, what the sandbox returned is recorded as it is. -/
theorem observe_room (hroom : t.hasRoom b = true) {r : CommandResult} (hr : b.Allows r) (operation : String)
    (command : List String) :
    t.observe b operation command r =
      { t with
        observedOutputBytes := t.observedOutputBytes + (r.stdout.utf8ByteSize + r.stderr.utf8ByteSize)
        commandObservations := t.commandObservations ++ [.unclipped operation command r] } := by
  obtain ⟨-, hentries, hbytes⟩ := hasRoom_iff.mp hroom
  have hallows : r.stdout.utf8ByteSize + r.stderr.utf8ByteSize ≤ b.maxOutputBytes := hr
  have hstdout : cutBytes (b.maxObservedOutputBytes - t.observedOutputBytes) r.stdout = r.stdout :=
    cutBytes_whole (by omega)
  have hstderr : cutBytes (b.maxObservedOutputBytes - t.observedOutputBytes - r.stdout.utf8ByteSize) r.stderr = r.stderr :=
    cutBytes_whole (by omega)
  unfold observe
  rw [if_neg (by omega)]
  simp only [hstdout, hstderr, ne_eq, not_true_eq_false, decide_false, Bool.or_false]
  rfl

theorem Accounted.observed (h : t.Accounted b executions) (hroom : t.hasRoom b = true) {r : CommandResult}
    (hr : b.Allows r) (operation : String) (command : List String) :
    (t.observe b operation command r).Accounted b (executions ++ [.unclipped operation command r]) := by
  obtain ⟨hopen, hentries, hbytes⟩ := hasRoom_iff.mp hroom
  have hallows : r.stdout.utf8ByteSize + r.stderr.utf8ByteSize ≤ b.maxOutputBytes := hr
  rw [observe_room hroom hr]
  have hterminal : t.observationTerminalRecorded ≠ true := by
    intro hrecorded
    rw [h.closed hrecorded] at hopen
    cases hopen
  constructor
  · -- no terminal entry stands behind the earlier executions
    obtain ⟨terminal, hobservations, -, -, hflag⟩ := h.recorded
    have hnone : terminal = [] := by
      by_contra hsome
      exact hterminal (hflag hsome)
    refine ⟨[], ?_, Nat.zero_le _, fun _ ho => absurd ho List.not_mem_nil, fun hne => absurd rfl hne⟩
    show t.commandObservations ++ _ = _
    rw [hobservations, hnone, List.append_nil, List.append_nil]
  · exact fun hrecorded => absurd hrecorded hterminal
  · show t.observedOutputBytes + _ = ((t.commandObservations ++ _).map _).sum
    rw [List.map_append, List.sum_append, ← h.counted]
    rfl
  · show t.observedOutputBytes + _ ≤ _
    omega
  · show (t.commandObservations ++ _).length ≤ _
    rw [List.length_append, List.length_singleton]
    omega

/-- An observation that has a place is recorded with what is left of the output. -/
theorem observe_place (hentries : t.commandObservations.length < b.maxObservations)
    (hbytes : t.observedOutputBytes ≤ b.maxObservedOutputBytes) (operation : String) (command : List String)
    (r : CommandResult) : ∃ o : Observation,
      (t.observe b operation command r).commandObservations = t.commandObservations ++ [o] ∧
      (t.observe b operation command r).observedOutputBytes = t.observedOutputBytes + o.retained ∧
      (t.observe b operation command r).observedOutputBytes ≤ b.maxObservedOutputBytes ∧
      o.exitCode = r.exitCode ∧ o.stdout.toList <+: r.stdout.toList ∧ o.stderr.toList <+: r.stderr.toList := by
  have hout := cutBytes_le (b.maxObservedOutputBytes - t.observedOutputBytes) r.stdout
  have herr := cutBytes_le (b.maxObservedOutputBytes - t.observedOutputBytes -
    (cutBytes (b.maxObservedOutputBytes - t.observedOutputBytes) r.stdout).utf8ByteSize) r.stderr
  unfold observe
  rw [if_neg (Nat.not_le.mpr hentries)]
  refine ⟨_, rfl, rfl, ?_, rfl, cutBytes_begins _ _, cutBytes_begins _ _⟩
  dsimp only
  omega

/-- Where the capacity is used up, one entry says so. -/
theorem Accounted.capacity (h : t.Accounted b executions) (operation : String) (command : List String) :
    (t.close.recordCapacity b operation command).Accounted b executions := by
  unfold recordCapacity
  split
  · exact ⟨h.recorded, fun _ => rfl, h.counted, h.bytes, h.entries⟩
  next hunrecorded =>
  obtain ⟨terminal, hobservations, -, -, hflag⟩ := h.recorded
  have hnone : terminal = [] := by
    by_contra hsome
    exact hunrecorded (hflag hsome)
  rw [hnone, List.append_nil] at hobservations
  by_cases hentries : t.commandObservations.length < b.maxObservations
  · obtain ⟨o, hplace, hcount, hbytes, hcode, hstdout, hstderr⟩ :=
      observe_place (t := t.close) hentries h.bytes operation command WorkspaceTools.capacity
    constructor
    · refine ⟨[o], hplace.trans (congrArg (· ++ [o]) hobservations), Nat.le_refl _, ?_, fun _ => rfl⟩
      intro other hother
      obtain rfl := List.mem_singleton.mp hother
      have hempty : other.stdout.toList = [] := List.prefix_nil.mp hstdout
      exact ⟨hcode, String.toList_eq_nil_iff.mp hempty, hstderr⟩
    · exact fun _ => (observe_closed operation command _).trans rfl
    · show (t.close.observe b operation command WorkspaceTools.capacity).observedOutputBytes = _
      rw [hcount, hplace, List.map_append, List.sum_append]
      exact congrArg₂ (· + ·) h.counted (Nat.add_zero _).symm
    · exact hbytes
    · show (t.close.observe b operation command WorkspaceTools.capacity).commandObservations.length ≤ _
      rw [hplace, List.length_append, List.length_singleton]
      exact hentries
  · -- no entry has a place
    have hsame : t.close.observe b operation command WorkspaceTools.capacity = t.close := by
      unfold observe
      exact if_pos (Nat.not_lt.mp hentries)
    rw [hsame]
    refine ⟨⟨[], ?_, Nat.zero_le _, fun _ ho => absurd ho List.not_mem_nil, fun hne => absurd rfl hne⟩, fun _ => rfl,
      h.counted, h.bytes, h.entries⟩
    exact hobservations.trans (List.append_nil _).symm

/-! ## Calls -/

theorem execute_room (hroom : t.hasRoom b = true) (command : List String) (answer : Except Raised CommandResult) :
    t.execute b (.runCommand command answer) =
      match answer with
      | .error _ => t
      | .ok r => t.observe b "run_command" command r := by
  show (t.runCommand b command answer).2 = _
  unfold runCommand
  rw [hroom]
  cases answer <;> rfl

theorem execute_full (hfull : t.hasRoom b = false) (command : List String) (answer : Except Raised CommandResult) :
    t.execute b (.runCommand command answer) = t.close.recordCapacity b "run_command" command := by
  show (t.runCommand b command answer).2 = _
  unfold runCommand
  rw [if_pos hfull]

theorem execute_staged (hroom : t.hasRoom b = true) (r : CommandResult) (workspace : W) :
    t.execute b (.applyPatch (.staged r workspace)) =
      { t.observe b "apply_patch" patchCommand r with workspace := workspace } := by
  show t.applyPatch b (.staged r workspace) = _
  unfold applyPatch
  rw [hroom]
  rfl

theorem execute_unstaged (hroom : t.hasRoom b = true) : t.execute b (.applyPatch .unstaged) = t := by
  show t.applyPatch b .unstaged = _
  unfold applyPatch
  rw [hroom]
  rfl

theorem execute_refused (hfull : t.hasRoom b = false) {run : PatchRun W} (hrun : run ≠ .unasked) :
    t.execute b (.applyPatch run) = t.close.recordCapacity b "apply_patch" patchCommand := by
  show t.applyPatch b run = _
  unfold applyPatch
  cases run with
  | unasked => exact absurd rfl hrun
  | unstaged => exact if_pos hfull
  | staged r workspace => exact if_pos hfull

/-- Without room nothing is owed. -/
theorem owed_full (h : t.hasRoom b = false) (call : ToolCall W) : t.owed b call = [] := by
  unfold owed
  split <;> simp [h]

/-- One call. -/
theorem Accounted.execute (h : t.Accounted b executions) {call : ToolCall W} (hcall : call.Bounded b) :
    (t.execute b call).Accounted b (executions ++ t.owed b call) := by
  by_cases hroom : t.hasRoom b = true
  · cases call with
    | listFiles | readFile => rwa [show t.owed b _ = [] from rfl, List.append_nil]
    | runCommand command answer =>
      rw [execute_room hroom]
      cases answer with
      | error e => rwa [show t.owed b _ = [] from rfl, List.append_nil]
      | ok r =>
        rw [show t.owed b (.runCommand command (.ok r)) = [.unclipped "run_command" command r] from if_pos hroom]
        exact h.observed hroom hcall "run_command" command
    | applyPatch run =>
      cases run with
      | unasked => rwa [show t.owed b _ = [] from rfl, List.append_nil]
      | unstaged => rwa [execute_unstaged hroom, show t.owed b _ = [] from rfl, List.append_nil]
      | staged r workspace =>
        rw [execute_staged hroom,
          show t.owed b (.applyPatch (.staged r workspace)) = [.unclipped "apply_patch" patchCommand r] from if_pos hroom]
        have hstep := h.observed hroom hcall "apply_patch" patchCommand
        exact ⟨hstep.recorded, hstep.closed, hstep.counted, hstep.bytes, hstep.entries⟩
  · have hfull : t.hasRoom b = false := Bool.eq_false_iff.mpr hroom
    rw [owed_full hfull, List.append_nil]
    cases call with
    | listFiles | readFile => exact h
    | runCommand command answer =>
      rw [execute_full hfull]
      exact h.capacity "run_command" command
    | applyPatch run =>
      by_cases hrun : run = .unasked
      · rw [hrun]
        exact h
      · rw [execute_refused hfull hrun]
        exact h.capacity "apply_patch" patchCommand

/-- A run of calls. -/
theorem Accounted.run {calls : List (ToolCall W)} (h : t.Accounted b executions) (hcalls : ∀ call ∈ calls, call.Bounded b) :
    (calls.foldl (WorkspaceTools.execute b) t).Accounted b (executions ++ t.admitted b calls) := by
  induction calls generalizing t executions with
  | nil =>
    rw [admitted, List.append_nil]
    exact h
  | cons call calls ih =>
    rw [admitted, ← List.append_assoc]
    exact ih (h.execute (hcalls call List.mem_cons_self)) fun other hother => hcalls other (List.mem_cons_of_mem _ hother)

theorem execute_closed (h : t.observationsClosed = true) (call : ToolCall W) :
    (t.execute b call).observationsClosed = true := by
  have hfull : t.hasRoom b = false := by
    unfold hasRoom
    rw [h]
    rfl
  cases call with
  | listFiles | readFile => exact h
  | runCommand command answer =>
    rw [execute_full hfull]
    exact recordCapacity_closed _ _
  | applyPatch run =>
    by_cases hrun : run = .unasked
    · rw [hrun]
      exact h
    · rw [execute_refused hfull hrun]
      exact recordCapacity_closed _ _

/-- Tools that are closed admit nothing any more. -/
theorem admitted_closed (h : t.observationsClosed = true) (calls : List (ToolCall W)) : t.admitted b calls = [] := by
  induction calls generalizing t with
  | nil => rfl
  | cons call calls ih =>
    have hfull : t.hasRoom b = false := by
      unfold hasRoom
      rw [h]
      rfl
    rw [admitted, owed_full hfull, ih (execute_closed h call)]
    rfl

theorem start_accounted (b : Budget) (workspace : W) : ({ workspace } : WorkspaceTools W).Accounted b [] where
  recorded := ⟨[], rfl, Nat.zero_le _, fun _ ho => absurd ho List.not_mem_nil, fun hne => absurd rfl hne⟩
  closed h := by cases h
  counted := rfl
  bytes := Nat.zero_le _
  entries := Nat.zero_le _

/-- After any calls the retained output and the number of observations keep to their limits. The
observations are those of the admitted executions, each as the sandbox returned it, and at most one
terminal entry, which is the last, and behind which nothing is admitted. -/
theorem observations_accounted (b : Budget) (workspace : W) (calls : List (ToolCall W))
    (hcalls : ∀ call ∈ calls, call.Bounded b) :
    ((session b workspace calls).commandObservations.map Observation.retained).sum ≤ b.maxObservedOutputBytes ∧
      (session b workspace calls).commandObservations.length ≤ b.maxObservations ∧
      ∃ terminal,
        (session b workspace calls).commandObservations = ({ workspace } : WorkspaceTools W).admitted b calls ++ terminal ∧
        terminal.length ≤ 1 ∧ (∀ o ∈ terminal, Terminal o) ∧
        (terminal ≠ [] → ∀ more, (session b workspace calls).admitted b more = []) := by
  have hrun := (start_accounted b workspace).run hcalls
  rw [List.nil_append] at hrun
  refine ⟨hrun.counted ▸ hrun.bytes, hrun.entries, ?_⟩
  obtain ⟨terminal, hobservations, hone, hterminal, hflag⟩ := hrun.recorded
  exact ⟨terminal, hobservations, hone, hterminal, fun hne => admitted_closed (hrun.closed (hflag hne))⟩

/-- Two commands in a budget for one: the second is not run, and the terminal entry is clipped. -/
theorem observations_accounted_tight :
    let b : Budget := { maxObservations := 3, maxObservedOutputBytes := 10, maxOutputBytes := 6 }
    let call : ToolCall Unit := .runCommand ["make"] (.ok { exitCode := some 0, stdout := "é", stderr := "ok" })
    ((session b () [call, call, call]).commandObservations.map Observation.retained).sum ≤ 10 ∧
      (session b () [call, call, call]).commandObservations.map Observation.stderr = ["ok", "ok", "ob"] := by
  refine ⟨(observations_accounted _ () _ ?_).1, by decide +kernel⟩
  intro call hcall
  simp only [List.mem_cons, List.not_mem_nil, or_false, or_self] at hcall
  subst hcall
  show (_ : Nat) ≤ _
  decide

end WorkspaceTools

end LilTweak.Agent
