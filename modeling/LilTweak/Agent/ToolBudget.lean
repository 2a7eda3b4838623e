import LilTweak.Agent.CodeEngineer
import Mathlib

/-!
# The budget of the tool loop

Whatever the model and the tools answer, the history stays within its bytes, every output fits the room
reserved for it, and a limit is only run into before a tool of the response was executed.
-/

namespace LilTweak.Agent

open LilTweak.Lib LilTweak.Core

variable {P : Python} {L : Limits} {chat : Bool}

/-! ## One output -/

/-- A call whose allocation holds at least its minimal record. -/
structure PlannedCall.Reserved (P : Python) (L : Limits) (p : PlannedCall) : Prop where
  plan : p.plan = outputPlan P L p.item
  room : (toolOutputRecord P (field p.item "call_id") "").2 + 1 ≤ p.allocation

theorem innerOutputLimit_pos (p : PlannedCall) : 0 < innerOutputLimit P L p :=
  Nat.lt_min.mpr ⟨L.outputBytes, Nat.lt_of_lt_of_le Nat.one_pos (Nat.le_max_left _ _)⟩

/-- `_canonical_json` never refuses the error of a tool. -/
theorem canonicalJson_toolError (error : String) (maxBytes : Nat) :
    (canonicalJson P (toolError error) maxBytes).isSome := rfl

/-- The output written for a result is a JSON text within the inner limit. -/
theorem output_fits (p : PlannedCall) (result : ToolValue) : ∃ output,
    fittedRecord P L p result = toolOutputRecord P (field p.item "call_id") output ∧
      JsonText output ∧ output.utf8ByteSize ≤ innerOutputLimit P L p := by
  have hpos := innerOutputLimit_pos (P := P) (L := L) p
  unfold fittedRecord
  cases h : canonicalJson P result (innerOutputLimit P L p) with
  | some output => exact ⟨output, rfl, canonicalJson_fits hpos h⟩
  | none =>
    obtain ⟨output, houtput⟩ := Option.isSome_iff_exists.mp
      (canonicalJson_toolError (P := P) "tool_execution_failed" (innerOutputLimit P L p))
    refine ⟨output, ?_, canonicalJson_fits hpos houtput⟩
    simp only [houtput, Option.getD_some]

/-- The record of any result fits the allocation. -/
theorem fittedRecord_le {p : PlannedCall} (hp : p.Reserved P L) (result : ToolValue) :
    (fittedRecord P L p result).2 ≤ p.allocation := by
  obtain ⟨output, hrecord, htext, hfits⟩ := output_fits (P := P) (L := L) p result
  have hroom := hp.room
  have hdouble := htext.escapedSize_le
  have hinner : innerOutputLimit P L p ≤
      max 1 ((p.allocation - (toolOutputRecord P (field p.item "call_id") "").2) / 2) := Nat.min_le_right _ _
  rw [hrecord, size_toolOutputRecord]
  -- where a single byte is left, the output is a digit
  by_cases hone : p.allocation - (toolOutputRecord P (field p.item "call_id") "").2 < 2
  · have hsingle : output.utf8ByteSize ≤ 1 := by omega
    have hescaped := htext.escapedSize_single hsingle
    omega
  · omega

/-- The fallback to the minimal record is never needed. -/
theorem outputRecord_eq {p : PlannedCall} (hp : p.Reserved P L) (result : ToolValue) :
    outputRecord P L p result = fittedRecord P L p result := by
  have hfits := fittedRecord_le hp result
  unfold outputRecord
  exact if_neg (Nat.not_lt.mpr hfits)

/-- A record counts with the size it has in the history. -/
theorem fittedRecord_size (p : PlannedCall) (result : ToolValue) :
    (fittedRecord P L p result).2 = jsonSize P (.obj (fittedRecord P L p result).1) := rfl

/-! ## The plans of a response -/

theorem planCalls_length (calls : List JsonFields) (extra : Nat) : (planCalls P L calls extra).length = calls.length := by
  simp [planCalls, fairShares_length]

theorem planCalls_sum (calls : List JsonFields) (extra : Nat) :
    ((planCalls P L calls extra).map PlannedCall.allocation).sum ≤
      (calls.map fun item => (outputPlan P L item).minimumSize).sum + extra := by
  have hallocations : (planCalls P L calls extra).map PlannedCall.allocation =
      fairShares extra (calls.map (outputDemand P L)) := by
    unfold planCalls
    rw [List.map_map]
    exact List.map_snd_zip (by simp [fairShares_length])
  have hminimum : (calls.map (outputDemand P L)).map Demand.minimum =
      calls.map fun item => (outputPlan P L item).minimumSize := by
    rw [List.map_map]
    rfl
  rw [hallocations, ← hminimum]
  exact fairShares_sum_le

theorem planCalls_reserved {calls : List JsonFields} {extra : Nat} {p : PlannedCall}
    (hp : p ∈ planCalls P L calls extra) : p.Reserved P L := by
  obtain ⟨⟨item, allocation⟩, hzip, rfl⟩ := List.mem_map.mp hp
  refine ⟨rfl, ?_⟩
  have hshares := @fairShares_bounds extra (calls.map (outputDemand P L))
  rw [List.forall₂_map_left_iff] at hshares
  have hbounds := List.forall₂_zip hshares hzip
  have hminimum := hbounds.1
  rwa [show (outputDemand P L item).minimum = _ from outputPlan_minimum P L item] at hminimum

/-! ## The invariant -/

/-- The bytes of assistant items and tool outputs in the history. -/
def addedBytes (P : Python) (s : Loop) : Nat := ((s.history.drop 1).map (jsonSize P)).sum

/-- The calls of a phase whose tools are still to be executed. -/
def Phase.pendingCalls : Phase → Nat
  | .executing _ _ pending _ _ => pending.length
  | _ => 0

/-- While tools are executed, what will be added to the history and what is reserved for the rest stay
within the budget, and there is another round. -/
def Loop.PhaseWithin (P : Python) (L : Limits) (s : Loop) : Prop :=
  match s.phase with
  | .executing items assistantSize pending outputs outputSize =>
    s.roundIndex + 1 < L.maxRounds ∧
    assistantSize = ((items.map Json.obj).map (jsonSize P)).sum ∧
    outputSize = ((outputs.map Json.obj).map (jsonSize P)).sum ∧
    s.toolHistoryBytes + assistantSize + outputSize + (pending.map PlannedCall.allocation).sum ≤
      L.maxToolHistoryBytes ∧
    ∀ p ∈ pending, p.Reserved P L
  | _ => True

/-- The loop after `executed` tools. -/
structure Loop.Within (P : Python) (L : Limits) (executed : Nat) (s : Loop) : Prop where
  request : s.history ≠ []
  bytes : addedBytes P s = s.toolHistoryBytes
  history : s.toolHistoryBytes ≤ L.maxToolHistoryBytes
  counted : executed + s.phase.pendingCalls ≤ s.toolCallCount
  calls : s.toolCallCount ≤ L.maxToolCalls
  phase : s.PhaseWithin P L

theorem start_within (initial : Json) : (Loop.start initial).Within P L 0 :=
  ⟨List.cons_ne_nil _ _, rfl, Nat.zero_le _, Nat.le_refl _, Nat.zero_le _, trivial⟩

/-- A raised error leaves the loop within its budget. -/
theorem Loop.Within.raise {executed : Nat} {s : Loop} (h : s.Within P L executed) (e : AgentError) :
    (s.raise e).Within P L executed :=
  ⟨h.request, h.bytes, h.history, (Nat.le_add_right _ _).trans h.counted, h.calls, trivial⟩

theorem normalize_size {items : List ResponseItem} {normalized : List (JsonFields × Nat)}
    (h : items.mapM (normalizeResponseOutputItem P) = .ok normalized) :
    (normalized.map Prod.snd).sum = (((normalized.map Prod.fst).map Json.obj).map (jsonSize P)).sum := by
  induction items generalizing normalized with
  | nil =>
    obtain rfl := Except.ok.inj h
    rfl
  | cons item rest ih =>
    cases item with
    | unreplayable => cases h
    | object fields =>
      rw [List.mapM_cons] at h
      cases hrest : rest.mapM (normalizeResponseOutputItem P) with
      | error e =>
        rw [hrest] at h
        cases h
      | ok others =>
        rw [hrest] at h
        obtain rfl := Except.ok.inj h
        simp only [List.map_cons, List.sum_cons, ih hrest]

/-! ## Steps -/

section
variable {executed : Nat} {s : Loop}

/-- The calls of a response are admitted within the budget, or refused before any is executed. -/
theorem Loop.Within.admitCalls (h : s.Within P L executed) (hphase : s.phase = .asking) {items : List JsonFields}
    {assistantSize : Nat} (hsize : assistantSize = ((items.map Json.obj).map (jsonSize P)).sum)
    (calls : List JsonFields) : (s.admitCalls P L items assistantSize calls).Within P L executed := by
  have hcounted := h.counted
  rw [hphase] at hcounted
  unfold Loop.admitCalls
  simp only
  split
  · exact h.raise _
  next hround =>
  split
  · exact h.raise _
  next hcalls =>
  split
  · exact h.raise _
  next hroom =>
  refine ⟨h.request, h.bytes, h.history, ?_, by simpa using hcalls, ?_⟩
  · show executed + (planCalls P L calls _).length ≤ s.toolCallCount + calls.length
    rw [planCalls_length]
    exact Nat.add_le_add_right hcounted _
  · refine ⟨by simpa using hround, hsize, rfl, ?_, fun p hp => planCalls_reserved hp⟩
    have hsum := planCalls_sum (P := P) (L := L) calls
      (L.maxToolHistoryBytes - s.toolHistoryBytes - assistantSize -
        (calls.map fun item => (outputPlan P L item).minimumSize).sum)
    simp only at hroom ⊢
    omega

theorem Loop.Within.readResponse (h : s.Within P L executed) (hphase : s.phase = .asking) (r : Response) :
    (s.readResponse P L chat r).Within P L executed := by
  have hcount : ∀ calls inputTokens outputTokens totalTokens : Nat,
      ({ s with calls, inputTokens, outputTokens, totalTokens } : Loop).Within P L executed :=
    fun _ _ _ _ => ⟨h.request, h.bytes, h.history, h.counted, h.calls, h.phase⟩
  have hcount := hcount (s.calls + 1) (s.inputTokens + r.inputTokens) (s.outputTokens + r.outputTokens)
    (s.totalTokens + r.totalTokens)
  unfold Loop.readResponse
  simp only
  split
  · exact hcount.raise _
  split
  · exact hcount.raise _
  split
  · exact hcount.raise _
  split
  · exact hcount.raise _
  next normalized hnormalized =>
  split
  · exact hcount.raise _
  next calls texts hread =>
  split
  · exact hcount.admitCalls hphase (normalize_size hnormalized) calls
  split
  · exact ⟨h.request, h.bytes, h.history, (Nat.le_add_right _ _).trans h.counted, h.calls, trivial⟩
  · exact hcount.raise _

/-- A recorded result keeps to the budget; after the last one the next round starts. -/
theorem Loop.Within.record {items : List JsonFields} {assistantSize : Nat} {p : PlannedCall} {rest : List PlannedCall}
    {outputs : List JsonFields} {outputSize : Nat} (h : s.Within P L executed)
    (hphase : s.phase = .executing items assistantSize (p :: rest) outputs outputSize) (result : ToolValue) :
    (s.record P L items assistantSize p rest outputs outputSize result).Within P L (executed + 1) ∧
      (rest = [] → (s.record P L items assistantSize p rest outputs outputSize result).phase = .asking) := by
  have hwithin := h.phase
  have hcounted := h.counted
  unfold Loop.PhaseWithin at hwithin
  rw [hphase] at hwithin hcounted
  obtain ⟨hround, hassistant, houtputs, hroom, hreserved⟩ := hwithin
  have hp := hreserved p List.mem_cons_self
  have hfits := fittedRecord_le hp result
  have hsize := fittedRecord_size (P := P) (L := L) p result
  simp only [Phase.pendingCalls, List.length_cons] at hcounted
  simp only [List.map_cons, List.sum_cons] at hroom
  have hadded : (((outputs ++ [(fittedRecord P L p result).1]).map Json.obj).map (jsonSize P)).sum =
      outputSize + (fittedRecord P L p result).2 := by
    simp only [List.map_append, List.map_cons, List.map_nil, List.sum_append, List.sum_cons, List.sum_nil, ← houtputs,
      ← hsize, Nat.add_zero]
  unfold Loop.record
  rw [outputRecord_eq hp]
  cases rest with
  | nil =>
    simp only
    unfold Loop.nextRound
    rw [if_pos hround]
    refine ⟨⟨by simp, ?_, ?_, ?_, h.calls, trivial⟩, fun _ => rfl⟩
    · obtain ⟨first, added, hhistory⟩ := List.exists_cons_of_ne_nil h.request
      have hbytes := h.bytes
      unfold addedBytes at hbytes ⊢
      rw [hhistory] at hbytes
      simp only [hhistory, List.cons_append, List.drop_succ_cons, List.drop_zero, List.map_append, List.sum_append]
        at hbytes ⊢
      simp only [List.map_append, List.sum_append] at hadded
      omega
    · simp only [List.map_nil, List.sum_nil] at hroom
      show s.toolHistoryBytes + (assistantSize + (outputSize + (fittedRecord P L p result).2)) ≤ _
      omega
    · exact hcounted
  | cons q rest =>
    refine ⟨⟨h.request, h.bytes, h.history, ?_, h.calls, ?_⟩, fun hnil => by cases hnil⟩
    · simp only [Phase.pendingCalls, List.length_cons] at hcounted ⊢
      omega
    · refine ⟨hround, hassistant, hadded.symm, ?_, fun r hr => hreserved r (List.mem_cons_of_mem _ hr)⟩
      simp only
      omega

/-- After a recorded result the loop goes on. -/
theorem Loop.Within.record_continues {items : List JsonFields} {assistantSize : Nat} {p : PlannedCall}
    {rest : List PlannedCall} {outputs : List JsonFields} {outputSize : Nat} (h : s.Within P L executed)
    (hphase : s.phase = .executing items assistantSize (p :: rest) outputs outputSize) (result : ToolValue)
    (outcome : Except AgentError FinalText) :
    (s.record P L items assistantSize p rest outputs outputSize result).phase ≠ .ended outcome := by
  cases rest with
  | nil =>
    rw [(h.record hphase result).2 rfl]
    exact Phase.noConfusion
  | cons q rest => exact Phase.noConfusion

theorem Loop.Within.fewer {fewer : Nat} (h : s.Within P L executed) (hle : fewer ≤ executed) :
    s.Within P L fewer :=
  ⟨h.request, h.bytes, h.history, (Nat.add_le_add_right hle _).trans h.counted, h.calls, h.phase⟩

/-- The tool of a call was executed. -/
def Event.isExecuted : Event → Bool
  | .executed _ => true
  | _ => false

variable {s' : Loop} {e : Event}

/-- What a step can do: read a reply, record a result, or raise because of one. -/
theorem step_cases (h : Step P L chat s e s') :
    (∃ r, e = .reply r ∧ s.phase = .asking ∧ s' = s.receive P L chat r) ∨
    ∃ items assistantSize p rest outputs outputSize,
      s.phase = .executing items assistantSize (p :: rest) outputs outputSize ∧
      ((∃ result, s' = s.record P L items assistantSize p rest outputs outputSize result) ∨
        e.isExecuted = true ∧ s' = s.raise .recovery) := by
  unfold Step step? at h
  cases e with
  | reply r =>
    simp only at h
    split at h
    · next hphase => exact .inl ⟨r, rfl, hphase, (Option.some.inj h).symm⟩
    · cases h
  | executed answer =>
    simp only at h
    split at h
    · next items assistantSize p rest outputs outputSize hphase =>
      refine .inr ⟨items, assistantSize, p, rest, outputs, outputSize, hphase, ?_⟩
      split at h
      · cases h
      · cases answer with
        | returned value => exact .inl ⟨value, (Option.some.inj h).symm⟩
        | rejected => exact .inl ⟨_, (Option.some.inj h).symm⟩
        | recovery => exact .inr ⟨rfl, (Option.some.inj h).symm⟩
        | failed => exact .inl ⟨_, (Option.some.inj h).symm⟩
    · cases h
  | refused =>
    simp only at h
    split at h
    · next items assistantSize p rest outputs outputSize hphase =>
      refine .inr ⟨items, assistantSize, p, rest, outputs, outputSize, hphase, ?_⟩
      split at h
      · cases h
      · exact .inl ⟨_, (Option.some.inj h).symm⟩
    · cases h

theorem step_within (h : Step P L chat s e s') (hs : s.Within P L executed) :
    s'.Within P L (executed + if e.isExecuted then 1 else 0) := by
  rcases step_cases h with ⟨r, rfl, hphase, rfl⟩ | ⟨items, assistantSize, p, rest, outputs, outputSize, hphase, hcase⟩
  · show (s.receive P L chat r).Within P L executed
    cases r with
    | expired => exact hs.raise _
    | timedOut => exact hs.raise _
    | raised => exact hs.raise _
    | response r => exact hs.readResponse hphase r
  have hone : (executed + if e.isExecuted then 1 else 0) ≤ executed + 1 := by
    split
    · exact Nat.le_refl _
    · exact Nat.le_succ _
  rcases hcase with ⟨result, rfl⟩ | ⟨_, rfl⟩
  · exact (hs.record hphase result).1.fewer hone
  · have hcounted := hs.counted
    rw [hphase] at hcounted
    simp only [Phase.pendingCalls, List.length_cons] at hcounted
    refine ⟨hs.request, hs.bytes, hs.history, ?_, hs.calls, trivial⟩
    show _ + 0 ≤ s.toolCallCount
    omega

/-- Only a reply runs into a limit. -/
theorem step_limit (h : Step P L chat s e s') (hs : s.Within P L executed) {error : AgentError}
    (hlimit : s'.phase = .ended (.error error)) (hkind : error.isLimit) : ∃ r, e = .reply r := by
  rcases step_cases h with ⟨r, he, _⟩ | ⟨items, assistantSize, p, rest, outputs, outputSize, hphase, hcase⟩
  · exact ⟨r, he⟩
  rcases hcase with ⟨result, rfl⟩ | ⟨_, rfl⟩
  · exact absurd hlimit (hs.record_continues hphase result _)
  · obtain rfl := Except.error.inj (Phase.ended.inj hlimit)
    rcases hkind with hkind | hkind
    · cases hkind
    · cases hkind

end

/-! ## Runs -/

variable {initial : Json} {events : List Event} {w : Loop}

theorem run_within {s : Loop} {executed : Nat} (h : Run (Step P L chat) s events w) (hs : s.Within P L executed) :
    w.Within P L (executed + events.countP Event.isExecuted) := by
  induction h generalizing executed with
  | nil s => exact hs
  | @cons s t u e rest hstep _ ih =>
    have hrest := ih (step_within hstep hs)
    rw [List.countP_cons]
    rwa [Nat.add_assoc, Nat.add_comm (if e.isExecuted then 1 else 0)] at hrest

/-- Whatever the model and the tools answer: what a run adds to the history stays within its bytes, the
record of any result fits the room reserved for it, no more tools are executed than allowed, and a limit
is run into by a reply, before any tool of that response was executed. -/
theorem tool_budget_kept (h : Run (Step P L chat) (Loop.start initial) events w) :
    addedBytes P w ≤ L.maxToolHistoryBytes ∧
    (∀ items assistantSize p rest outputs outputSize,
      w.phase = .executing items assistantSize (p :: rest) outputs outputSize →
      ∀ result, (fittedRecord P L p result).2 ≤ p.allocation ∧ outputRecord P L p result = fittedRecord P L p result) ∧
    events.countP Event.isExecuted ≤ L.maxToolCalls ∧
    ∀ error, w.phase = .ended (.error error) → error.isLimit →
      ∃ before reply, events = before ++ [.reply reply] := by
  have hwithin := run_within h (start_within initial)
  refine ⟨?_, ?_, ?_, ?_⟩
  · rw [hwithin.bytes]
    exact hwithin.history
  · intro items assistantSize p rest outputs outputSize hphase result
    have hreserved := hwithin.phase
    unfold Loop.PhaseWithin at hreserved
    rw [hphase] at hreserved
    have hp := hreserved.2.2.2.2 p List.mem_cons_self
    exact ⟨fittedRecord_le hp result, outputRecord_eq hp result⟩
  · have hcounted := hwithin.counted
    have hcalls := hwithin.calls
    omega
  · intro error hphase hkind
    rcases List.eq_nil_or_concat events with rfl | ⟨before, e, rfl⟩
    · rw [← Run.nil_iff.mp h] at hphase
      cases hphase
    · rw [List.concat_eq_append] at h ⊢
      obtain ⟨t, hbefore, hlast⟩ := Run.append_iff.mp h
      obtain ⟨u, hstep, hnil⟩ := Run.cons_iff.mp hlast
      obtain rfl := Run.nil_iff.mp hnil
      obtain ⟨r, rfl⟩ := step_limit hstep (run_within hbefore (start_within initial)) hphase hkind
      exact ⟨before, r, rfl⟩

/-! ### A run with one tool -/

/-- An interpreter for the sample. -/
def samplePython : Python where
  float _ := "0.0"
  plain := plain_zero
  repr _ := "None"
  loads raw := if raw = "\x7b\x7d" then some (.obj []) else none

/-- A call of `list_files`, its result, and a last message. -/
def sampleEvents : List Event :=
  [.reply (.response { id := .str "r1", output := some [.object [("type", .str "function_call"),
      ("call_id", .str "c1"), ("name", .str "list_files"), ("arguments", .str "\x7b\x7d")]] }),
    .executed (.returned (.arr [.str "a.txt"])),
    .reply (.response { id := .str "r2", output := some [.object [("type", .str "message"),
      ("content", .arr [.obj [("type", .str "output_text"), ("text", .str "done")]])]] })]

theorem run_of_foldlM {s : Loop} (h : events.foldlM (step? P L chat) s = some w) : Run (Step P L chat) s events w := by
  induction events generalizing s with
  | nil =>
    obtain rfl := Option.some.inj h
    exact .nil s
  | cons e rest ih =>
    rw [List.foldlM_cons] at h
    obtain ⟨t, hstep, hrest⟩ := Option.bind_eq_some_iff.mp h
    exact .cons hstep (ih hrest)

theorem sampleEvents_bytes : (sampleEvents.foldlM (step? samplePython {} false) (Loop.start .null)).map
    (fun w => (addedBytes samplePython w, w.toolCallCount)) = some (145, 1) := by
  decide +kernel

theorem tool_budget_kept_listed : ∃ w, Run (Step samplePython {} false) (Loop.start .null) sampleEvents w ∧
    addedBytes samplePython w = 145 ∧ 145 ≤ ({} : Limits).maxToolHistoryBytes ∧
    sampleEvents.countP Event.isExecuted ≤ ({} : Limits).maxToolCalls := by
  obtain ⟨w, hw, hbytes⟩ := Option.map_eq_some_iff.mp sampleEvents_bytes
  have hrun := run_of_foldlM hw
  have hkept := tool_budget_kept hrun
  have hadded : addedBytes samplePython w = 145 := congrArg Prod.fst hbytes
  exact ⟨w, hrun, hadded, hadded ▸ hkept.1, hkept.2.2.1⟩

end LilTweak.Agent
