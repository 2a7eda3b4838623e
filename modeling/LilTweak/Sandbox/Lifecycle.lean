import LilTweak.Agent.Cuts
import LilTweak.Sandbox.Podman
import Mathlib

/-!
# The life of a container

Whatever podman and the clock answer: the removal is the last command of a call and its only one, a success
stands behind a container that was created, started and seeded, and a batch keeps to its output limit.
-/

namespace LilTweak.Sandbox

open LilTweak.Lib LilTweak.Worlds LilTweak.Agent

/-! ## Sizes -/

theorem boundAndRedact_size (value : Output) (limit : Int) (h : 0 ≤ limit) :
    ((boundAndRedact value limit).1.utf8ByteSize : Int) ≤ limit := by
  unfold boundAndRedact
  dsimp only
  split
  · assumption
  · have hcut := cutBytes_le limit.toNat (redact value.asText)
    rw [sliceBytes, if_pos h]
    dsimp only
    omega

theorem boundStreams_size (stdout stderr : Output) {limit : Int} (h : 0 ≤ limit) :
    ((boundStreams stdout stderr limit).1.utf8ByteSize : Int) +
      (boundStreams stdout stderr limit).2.1.utf8ByteSize ≤ limit := by
  have hout := boundAndRedact_size stdout limit h
  have herr := boundAndRedact_size stderr (max 0 (limit - (boundAndRedact stdout limit).1.utf8ByteSize)) (by omega)
  simp only [boundStreams]
  omega

theorem completedResult_size (returncode : Int) (stdout stderr : Output) {limit : Int} (h : 0 ≤ limit) :
    (resultSize (completedResult returncode stdout stderr limit) : Int) ≤ limit := by
  have hsize := boundStreams_size stdout stderr h
  rw [resultSize, Nat.cast_add]
  exact hsize

theorem timeoutResult_size (stdout stderr : Output) {limit : Int} (h : 0 ≤ limit) :
    (resultSize (timeoutResult stdout stderr limit) : Int) ≤ limit := by
  have hsize := boundStreams_size stdout stderr h
  rw [resultSize, Nat.cast_add]
  exact hsize

/-! ## What a step issues -/

/-- From `s` to `s'` these commands were issued, none of them the removal, and a failed lifecycle stays failed. -/
structure Grows (s s' : Session) (l : List Issued) : Prop where
  issued : s'.issued = s.issued ++ l
  others : ∀ i ∈ l, i.command.kind ≠ .remove
  failed : s.lifecycleFailed = true → s'.lifecycleFailed = true

namespace Grows

variable {s s' s'' : Session} {l l' : List Issued}

theorem refl (s : Session) : Grows s s [] :=
  ⟨(List.append_nil s.issued).symm, fun _ h => absurd h List.not_mem_nil, id⟩

theorem trans (h : Grows s s' l) (h' : Grows s' s'' l') : Grows s s'' (l ++ l') where
  issued := by rw [h'.issued, h.issued, List.append_assoc]
  others i hi := (List.mem_append.mp hi).elim (h.others i) (h'.others i)
  failed hs := h'.failed (h.failed hs)

theorem read (s : Session) : Grows s s.read [] := ⟨(List.append_nil s.issued).symm, fun _ h => absurd h List.not_mem_nil, id⟩

theorem fail (s : Session) : Grows s s.fail [] :=
  ⟨(List.append_nil s.issued).symm, fun _ h => absurd h List.not_mem_nil, fun _ => rfl⟩

theorem issue (s : Session) {c : Command} (hc : c.kind ≠ .remove) (confirmed : Bool) :
    Grows s (s.issue c confirmed) [⟨c, confirmed⟩] :=
  ⟨rfl, fun i hi => by rw [List.mem_singleton.mp hi]; exact hc, id⟩

end Grows

section
variable (E : Environment) (P : PodmanSandbox)

/-- A step of the container: the commands it issued, and all of these if it succeeded. -/
theorem control_grows (s : Session) {c : Command} (hc : c.kind ≠ .remove) :
    ∃ l, Grows s (control E s c).1 l ∧ ((control E s c).2 = .ok () → l = [⟨c, true⟩]) := by
  unfold control
  split
  · exact ⟨[], Grows.read s, fun h => by cases h⟩
  · split
    · exact ⟨_, (Grows.read s).trans (Grows.issue s.read hc true), fun _ => rfl⟩
    · exact ⟨_, (Grows.read s).trans (Grows.issue s.read hc false), fun h => by cases h⟩
    · exact ⟨_, (Grows.read s).trans (Grows.issue s.read hc false), fun h => by cases h⟩

/-- The commands among the steps. -/
def Setup.commands : List Setup → List Command
  | [] => []
  | .directory :: rest => commands rest
  | .command c :: rest => c :: commands rest

/-- After the steps succeeded, all their commands were issued and confirmed. -/
theorem setUp_grows (steps : List Setup) (hsteps : ∀ c ∈ Setup.commands steps, c.kind ≠ .remove) (s : Session) :
    ∃ l, Grows s (setUp E s steps).1 l ∧
      ((setUp E s steps).2 = .ok () → l = (Setup.commands steps).map fun c => ⟨c, true⟩) := by
  induction steps generalizing s with
  | nil => exact ⟨[], Grows.refl s, fun _ => rfl⟩
  | cons step steps ih =>
    cases step with
    | directory =>
      unfold setUp
      split
      · exact ⟨[], Grows.refl s, fun h => by cases h⟩
      · exact ih hsteps s
    | command c =>
      obtain ⟨hc, hrest⟩ := List.forall_mem_cons.mp hsteps
      obtain ⟨l, hgrows, hl⟩ := control_grows E s hc
      unfold setUp
      split
      · next _ s' f hcontrol =>
        rw [hcontrol] at hgrows
        exact ⟨l, hgrows, fun h => by cases h⟩
      · next _ s' hcontrol =>
        rw [hcontrol] at hgrows hl
        obtain ⟨l', hgrows', hl'⟩ := ih hrest s'
        exact ⟨l ++ l', hgrows.trans hgrows', fun h => by rw [hl rfl, hl' h]; rfl⟩

/-- A command of the loop: it is issued, a result keeps to the limit, and no time limit leaves it. -/
theorem executeBounded_grows (s : Session) {c : Command} (hc : c.kind ≠ .remove) (limit : Int) :
    ∃ confirmed, Grows s (executeBounded E s c limit).1 [⟨c, confirmed⟩] := by
  unfold executeBounded
  split
  · exact ⟨true, Grows.issue s hc true⟩
  · exact ⟨false, Grows.issue s hc false⟩
  · exact ⟨false, Grows.issue s hc false⟩
  · exact ⟨true, Grows.issue s hc true⟩

theorem executeBounded_size (s : Session) (c : Command) {limit : Int} (h : 0 ≤ limit) {result : CommandResult}
    (hresult : (executeBounded E s c limit).2 = .ok result) : (resultSize result : Int) ≤ limit := by
  unfold executeBounded at hresult
  split at hresult
  · next returncode stdout stderr _ =>
    obtain rfl := Except.ok.inj hresult
    exact completedResult_size returncode stdout stderr h
  · next stdout stderr _ =>
    obtain rfl := Except.ok.inj hresult
    exact timeoutResult_size stdout stderr h
  · cases hresult
  · next returncode events _ =>
    have hsize := completedResult_size returncode (.bytes (pump limit {} events).1.stdout)
      (.bytes (pump limit {} events).1.stderr) h
    obtain rfl := Except.ok.inj hresult
    split
    · exact hsize
    split
    · exact hsize
    · exact hsize

theorem executeBounded_fault {s : Session} {c : Command} {limit : Int} {f : Fault}
    (h : (executeBounded E s c limit).2 = .error f) : f = .failure := by
  unfold executeBounded at h
  split at h
  · cases h
  · cases h
  · exact (Except.error.inj h).symm
  · cases h

/-- A command that was confirmed stands behind an exact success. -/
theorem executeBounded_confirmed {s : Session} {c : Command} {limit : Int} {result : CommandResult}
    (h : (executeBounded E s c limit).2 = .ok result) (hsucceeded : succeeded result = true) :
    (executeBounded E s c limit).1.issued = s.issued ++ [⟨c, true⟩] := by
  unfold executeBounded at h ⊢
  split at h
  · rfl
  · obtain rfl := Except.ok.inj h
    simp [succeeded, timeoutResult] at hsucceeded
  · cases h
  · rfl

theorem succeeded_timeout (stdout stderr : Output) (limit : Int) : succeeded (timeoutResult stdout stderr limit) = false := rfl

theorem succeeded_lifecycle : succeeded (lifecycleFailureResult P) = false := rfl

theorem handle_grows (s : Session) (f : Fault) : Grows s (handle P s f).1 [] := by
  cases f with
  | timeout stdout stderr => exact Grows.refl s
  | failure => exact Grows.fail s

theorem succeeded_handle (s : Session) (f : Fault) : succeeded (handle P s f).2 = false := by
  cases f with
  | timeout stdout stderr => rfl
  | failure => rfl

/-- What the loop over the commands adds: at most a result for each command, the captured ones within what is left
of the output, and behind them perhaps the message that the wall time is used up. -/
structure Loop (remainingOutput : Int) (count : Nat) (added : List CommandResult) (fault : Option Fault) : Prop where
  failure : ∀ f, fault = some f → f = .failure
  length_le : added.length + (if fault = none then 0 else 1) ≤ count
  some_result : 0 < remainingOutput → 0 < count → added = [] → fault ≠ none
  within : ∃ captured fixed, added = captured ++ fixed ∧
    (((captured.map resultSize).sum : Nat) : Int) ≤ max 0 remainingOutput ∧
    (fixed = [] ∨ (fixed = [wallClockResult] ∧ fault = none))

variable {E P} in
/-- A result in front of the rest of the loop. -/
theorem Loop.cons {remaining : Int} {count : Nat} {added : List CommandResult} {fault : Option Fault}
    {result : CommandResult} (h : Loop (remaining - resultSize result) count added fault)
    (hsize : (resultSize result : Int) ≤ remaining) : Loop remaining (count + 1) (result :: added) fault := by
  obtain ⟨captured, fixed, hadded, hsum, hfixed⟩ := h.within
  refine ⟨h.failure, ?_, fun _ _ hnil => absurd hnil (List.cons_ne_nil _ _), result :: captured, fixed,
    congrArg (result :: ·) hadded, ?_, hfixed⟩
  · have hlength := h.length_le
    rw [List.length_cons]
    omega
  · rw [List.map_cons, List.sum_cons, Nat.cast_add]
    omega

/-- The loop over the commands, by induction on the commands. -/
theorem runCommands_loop (commands : List (List String × Option Int)) : ∀ (s : Session) (remaining : Int)
    (results : List CommandResult), ∃ l added, Grows s (runCommands E P s remaining results commands).1 l ∧
      (runCommands E P s remaining results commands).2.1 = results ++ added ∧
      Loop remaining commands.length added (runCommands E P s remaining results commands).2.2 := by
  induction commands with
  | nil =>
    intro s remaining results
    refine ⟨[], [], Grows.refl s, (List.append_nil results).symm, ?_, Nat.le_refl 0, ?_, [], [], rfl, ?_, .inl rfl⟩
    · exact fun f h => by cases h
    · exact fun _ h => absurd h (Nat.lt_irrefl 0)
    · exact le_max_left 0 remaining
  | cons head commands ih =>
    obtain ⟨command, timeout⟩ := head
    intro s remaining results
    unfold runCommands
    split
    · next hused =>
      refine ⟨[], [], Grows.refl s, (List.append_nil results).symm, ?_, Nat.zero_le _, ?_, [], [], rfl, ?_, .inl rfl⟩
      · exact fun f h => by cases h
      · exact fun h => absurd h (by omega)
      · exact le_max_left 0 remaining
    split
    · refine ⟨[], [wallClockResult], Grows.read s, rfl, ?_, Nat.succ_le_succ (Nat.zero_le _), ?_,
        [], [wallClockResult], rfl, le_max_left 0 remaining, .inr ⟨rfl, rfl⟩⟩
      · exact fun f h => by cases h
      · exact fun _ _ h => by cases h
    next hused _ =>
    have hkind : (⟨.exec, ["podman", "exec", P.name] ++ command⟩ : Command).kind ≠ .remove := by
      exact fun h => by cases h
    obtain ⟨confirmed, hexec⟩ := executeBounded_grows E s.read hkind remaining
    have hgrows := (Grows.read s).trans hexec
    split
    · next s' f hresult =>
      have hf := executeBounded_fault E (congrArg Prod.snd hresult)
      rw [hresult] at hgrows
      refine ⟨_, [], hgrows, (List.append_nil results).symm, ?_, Nat.succ_le_succ (Nat.zero_le _), ?_,
        [], [], rfl, le_max_left 0 remaining, .inl rfl⟩
      · exact fun f' h => by rw [← Option.some.inj h, hf]
      · exact fun _ _ _ h => by cases h
    · next s' result hresult =>
      have hsize := executeBounded_size E s.read _ (by omega) (congrArg Prod.snd hresult)
      rw [hresult] at hgrows
      split
      · refine ⟨_, [result], hgrows, rfl, ?_, Nat.succ_le_succ (Nat.zero_le _), ?_, [result], [], rfl, ?_, .inl rfl⟩
        · exact fun f h => by cases h
        · exact fun _ _ h => by cases h
        · simp only [List.map_cons, List.map_nil, List.sum_cons, List.sum_nil, Nat.add_zero]
          omega
      · obtain ⟨l', added, hgrows', hresults, hloop⟩ := ih s' (remaining - resultSize result) (results ++ [result])
        refine ⟨_, result :: added, hgrows.trans hgrows', ?_, hloop.cons hsize⟩
        rw [hresults, List.append_assoc, List.singleton_append]

/-! ## Whole calls -/

/-- The commands of a container that was created, started and seeded. -/
def opened (createArgv : List String) : List Issued :=
  [⟨⟨.create, createArgv⟩, true⟩, ⟨⟨.start, ["podman", "start", P.name]⟩, true⟩,
   ⟨⟨.seed, ["podman", "cp", E.resolved ++ "/.", P.name ++ ":/workspace"]⟩, true⟩]

/-- Behind some commands the removal is issued, once and last; where it is not confirmed, the lifecycle has failed
and only that is answered. -/
structure Removed {α : Type} (s s' : Session) (l : List Issued) (result failure : α) : Prop where
  last : ∃ confirmed, s'.issued = s.issued ++ l ++ [⟨removal P, confirmed⟩] ∧
    (confirmed = false → s'.lifecycleFailed = true ∧ result = failure)
  others : ∀ i ∈ l, i.command.kind ≠ .remove

/-- What the results of a batch satisfy that issued these commands. -/
structure Answers (count : Nat) (l : List Issued) (results : List CommandResult) : Prop where
  behind : ∀ r ∈ results, succeeded r = true → ∃ createArgv rest, l = opened E P createArgv ++ rest
  pos : 1 ≤ results.length
  le : results.length ≤ count
  within : ∃ captured fixed, results = captured ++ fixed ∧
    (((captured.map resultSize).sum : Nat) : Int) ≤ max 0 P.limits.maxOutputBytes ∧
    (fixed = [] ∨ fixed = [wallClockResult] ∨ fixed = [lifecycleFailureResult P])

/-- What is claimed of a batch. -/
structure BatchKept (s : Session) (count : Nat) (out : Session × Except String (List CommandResult)) : Prop where
  failed : s.lifecycleFailed = true → out.1.lifecycleFailed = true
  refused : ∀ message, out.2 = .error message → out.1.issued = s.issued
  answered : ∀ results, out.2 = .ok results → ∃ l, Removed P s out.1 l results [lifecycleFailureResult P] ∧
    Answers E P count l results

/-- The commands of a patch that was copied in, applied and copied out. -/
def patched (createArgv : List String) (source candidate : String) : List Issued :=
  opened E P createArgv ++
    [⟨⟨.copyIn, ["podman", "cp", source, P.name ++ ":/tmp/lil-tweak.patch"]⟩, true⟩,
     ⟨⟨.exec, ["podman", "exec", P.name] ++ patchArgv⟩, true⟩,
     ⟨⟨.copyOut, ["podman", "cp", P.name ++ ":/workspace/.", candidate]⟩, true⟩]

/-- What is claimed of a staged patch. -/
structure StageKept (s : Session) (source candidate : String) (out : Session × Except String CommandResult) : Prop where
  failed : s.lifecycleFailed = true → out.1.lifecycleFailed = true
  refused : ∀ message, out.2 = .error message → out.1.issued = s.issued
  answered : ∀ result, out.2 = .ok result →
    (out.1.issued = s.issued ∧ out.1.lifecycleFailed = true ∧ result = lifecycleFailureResult P) ∨
    ∃ l, Removed P s out.1 l result (lifecycleFailureResult P) ∧
      (succeeded result = true → ∃ createArgv, l = patched E P createArgv source candidate)

/-- The end of a call. -/
theorem close_removed {α : Type} {s s' : Session} {l : List Issued} (h : Grows s s' l) (result failure : α) :
    (s.lifecycleFailed = true → (close E P s' result failure).1.lifecycleFailed = true) ∧
    Removed P s (close E P s' result failure).1 l (close E P s' result failure).2 failure ∧
    ((close E P s' result failure).2 = result ∨ (close E P s' result failure).2 = failure) := by
  unfold close strictRemove
  split
  · next s'' hremove =>
    split at hremove
    · obtain ⟨rfl, -⟩ := Prod.mk.inj hremove
      refine ⟨h.failed, ⟨⟨true, ?_, fun hc => by cases hc⟩, h.others⟩, .inl rfl⟩
      rw [← h.issued]; rfl
    · cases (Prod.mk.inj hremove).2
  · next s'' hremove =>
    split at hremove
    · cases (Prod.mk.inj hremove).2
    · obtain ⟨rfl, -⟩ := Prod.mk.inj hremove
      refine ⟨fun _ => rfl, ⟨⟨false, ?_, fun _ => ⟨rfl, rfl⟩⟩, h.others⟩, .inr rfl⟩
      rw [← h.issued]; rfl

theorem opening_others (createArgv : List String) : ∀ c ∈ Setup.commands (opening E P createArgv), c.kind ≠ .remove := by
  simp [opening, Setup.commands]

/-- A message alone. -/
theorem Answers.message {count : Nat} (hcount : 1 ≤ count) (l : List Issued) {r : CommandResult}
    (hr : r = wallClockResult ∨ r = lifecycleFailureResult P) : Answers E P count l [r] where
  behind r' hr' hsucceeded := by
    rw [List.mem_singleton.mp hr'] at hsucceeded
    obtain rfl | rfl := hr
    · cases hsucceeded
    · cases hsucceeded
  pos := Nat.le_refl 1
  le := hcount
  within := by
    refine ⟨[], [r], rfl, le_max_left _ _, .inr ?_⟩
    obtain rfl | rfl := hr
    · exact .inl rfl
    · exact .inr rfl

/-- The body of a batch. -/
theorem batchBody_kept (s : Session) (createArgv : List String) {commands : List (List String × Option Int)}
    (hlimit : 0 < P.limits.maxOutputBytes) (hcount : 0 < commands.length) :
    ∃ l, Grows s (batchBody E P s createArgv commands).1 l ∧
      Answers E P commands.length l (batchBody E P s createArgv commands).2 := by
  obtain ⟨l, hgrows, hl⟩ := setUp_grows E (opening E P createArgv) (opening_others E P createArgv) s
  unfold batchBody
  split
  · next s' f hsetup =>
    rw [hsetup] at hgrows
    have hhandled := hgrows.trans (handle_grows P s' f)
    rw [List.append_nil] at hhandled
    refine ⟨l, hhandled, ?_⟩
    cases f with
    | failure => exact Answers.message E P hcount l (.inr rfl)
    | timeout stdout stderr =>
      have hsize := timeoutResult_size stdout stderr hlimit.le
      refine ⟨fun r hr hsucceeded => ?_, Nat.le_refl 1, hcount, [timeoutResult stdout stderr P.limits.maxOutputBytes], [],
        rfl, ?_, .inl rfl⟩
      · rw [List.mem_singleton.mp hr] at hsucceeded
        cases hsucceeded
      · simp only [List.map_cons, List.map_nil, List.sum_cons, List.sum_nil, Nat.add_zero]
        omega
  · next s' hsetup =>
    rw [hsetup] at hgrows hl
    obtain ⟨l', added, hgrows', hresults, hloop⟩ := runCommands_loop E P commands s' P.limits.maxOutputBytes []
    obtain ⟨captured, fixed, hadded, hsum, hfixed⟩ := hloop.within
    have hlength := hloop.length_le
    have hsome := hloop.some_result hlimit hcount
    have hwhole := hgrows.trans hgrows'
    have hopened : l ++ l' = opened E P createArgv ++ l' := by rw [hl rfl]; rfl
    rw [List.nil_append] at hresults
    split
    · next s'' results hrun =>
      rw [hrun] at hwhole hresults hlength hsome
      dsimp only at hwhole hresults
      subst hresults
      refine ⟨l ++ l', hwhole, fun r _ _ => ⟨createArgv, l', hopened⟩, ?_, by simpa using hlength, captured, fixed, hadded,
        hsum, hfixed.imp_right fun h => .inl h.1⟩
      exact List.length_pos_iff.mpr fun hnil => hsome hnil rfl
    · next s'' results f hrun =>
      rw [hrun] at hwhole hresults hlength hfixed
      dsimp only at hwhole hresults
      subst hresults
      obtain rfl := hloop.failure f (by rw [hrun])
      have hhandled := hwhole.trans (handle_grows P s'' .failure)
      rw [List.append_nil] at hhandled
      have hnone : fixed = [] := by
        obtain hnil | ⟨_, hfault⟩ := hfixed
        · exact hnil
        · cases hfault
      refine ⟨l ++ l', hhandled, fun r _ _ => ⟨createArgv, l', hopened⟩, ?_, ?_, captured, [lifecycleFailureResult P], ?_,
        hsum, .inr (.inr rfl)⟩
      · rw [List.length_append, List.length_singleton]
        omega
      · rw [List.length_append, List.length_singleton]
        simpa using hlength
      · rw [hadded, hnone, List.append_nil]; rfl

theorem buildPodmanArgv_limit {command createArgv : List String} {holder : Int}
    (h : buildPodmanArgv P command holder = .ok createArgv) : 0 < P.limits.maxOutputBytes := by
  unfold buildPodmanArgv at h
  dsimp only at h
  split at h
  · cases h
  split at h
  · cases h
  split at h
  · cases h
  split at h
  · cases h
  split at h
  · cases h
  · omega

theorem Removed.of_ok {α : Type} {s s' : Session} {l : List Issued} {a b : α}
    (h : Removed P s s' l (Except.ok a : Except String α) (.ok b)) : Removed P s s' l a b := by
  obtain ⟨⟨confirmed, hissued, hfailure⟩, hothers⟩ := h
  exact ⟨⟨confirmed, hissued, fun hc => (hfailure hc).imp_right Except.ok.inj⟩, hothers⟩

/-- A batch that ends with the removal. -/
theorem close_batchKept {s s' : Session} {l : List Issued} (h : Grows s s' l) {count : Nat} (hcount : 1 ≤ count)
    {results : List CommandResult} (hresults : Answers E P count l results) :
    BatchKept E P s count (close E P s' (.ok results) (.ok [lifecycleFailureResult P])) := by
  obtain ⟨hfailed, hremoved, hresult⟩ :=
    close_removed E P h (Except.ok results : Except String _) (.ok [lifecycleFailureResult P])
  refine ⟨hfailed, fun message hmessage => ?_, fun answer hanswer => ?_⟩
  · rw [hmessage] at hresult
    obtain hno | hno := hresult
    · cases hno
    · cases hno
  · rw [hanswer] at hremoved hresult
    have hkept : Answers E P count l answer := by
      obtain heq | heq := hresult
      · rwa [Except.ok.inj heq]
      · rw [Except.ok.inj heq]
        exact Answers.message E P hcount l (.inr rfl)
    exact ⟨l, hremoved.of_ok, hkept⟩

theorem runEphemeralBatch_kept (s : Session) (commands : List (List String × Option Int)) :
    BatchKept E P s commands.length (runEphemeralBatch E P s commands) := by
  have hrefused : ∀ (t : Session) (message : String), t.issued = s.issued → t.lifecycleFailed = s.lifecycleFailed →
      BatchKept E P s commands.length (t, .error message) :=
    fun t message hissued hfailed => ⟨fun h => hfailed.trans h, fun _ _ => hissued, fun _ h => by cases h⟩
  unfold runEphemeralBatch
  split
  · exact hrefused s _ rfl rfl
  next hcount =>
  have hpos : 1 ≤ commands.length := by omega
  split
  · exact hrefused s _ rfl rfl
  dsimp only
  split
  · exact close_batchKept E P (Grows.read s) hpos (Answers.message E P hpos [] (.inl rfl))
  split
  · exact hrefused s.read _ rfl rfl
  next createArgv hargv =>
  split
  · exact hrefused s.read _ rfl rfl
  · obtain ⟨l, hgrows, hanswers⟩ := batchBody_kept E P s.read createArgv (buildPodmanArgv_limit P hargv) hpos
    exact close_batchKept E P ((Grows.read s).trans hgrows) hpos hanswers

/-- The patch command and the copy behind it. -/
theorem applyCandidate_grows (s : Session) (timeout : Int) (candidate : String) :
    ∃ l, Grows s (applyCandidate E P s timeout candidate).1 l ∧
      ∀ result, (applyCandidate E P s timeout candidate).2 = .ok result → succeeded result = true →
        l = [⟨⟨.exec, ["podman", "exec", P.name] ++ patchArgv⟩, true⟩,
          ⟨⟨.copyOut, ["podman", "cp", P.name ++ ":/workspace/.", candidate]⟩, true⟩] := by
  have hexecKind : (⟨.exec, ["podman", "exec", P.name] ++ patchArgv⟩ : Command).kind ≠ .remove := fun h => by cases h
  have hcopyKind : (⟨.copyOut, ["podman", "cp", P.name ++ ":/workspace/.", candidate]⟩ : Command).kind ≠ .remove :=
    fun h => by cases h
  obtain ⟨confirmed, hexec⟩ := executeBounded_grows E s.read hexecKind P.limits.maxOutputBytes
  have hgrows := (Grows.read s).trans hexec
  unfold applyCandidate
  split
  · refine ⟨_, Grows.read s, fun result hresult hsucceeded => ?_⟩
    rw [← Except.ok.inj hresult] at hsucceeded
    cases hsucceeded
  split
  · next s' f hrun =>
    rw [hrun] at hgrows
    exact ⟨_, hgrows, fun _ h => by cases h⟩
  next s' ran hrun =>
  rw [hrun] at hgrows
  split
  · next hnot =>
    refine ⟨_, hgrows, fun result hresult hsucceeded => ?_⟩
    rw [← Except.ok.inj hresult, hnot] at hsucceeded
    cases hsucceeded
  next hran =>
  have hconfirmed : confirmed = true := by
    have hissued := executeBounded_confirmed E (congrArg Prod.snd hrun) (by simpa using hran)
    rw [hrun] at hissued
    have hboth := hgrows.issued.symm.trans hissued
    simpa [Session.read] using hboth
  obtain ⟨l', hcopy, hl'⟩ := control_grows E s' hcopyKind
  have hwhole := hgrows.trans hcopy
  split
  · next s'' f hcontrol =>
    rw [hcontrol] at hwhole
    exact ⟨_, hwhole, fun _ h => by cases h⟩
  · next s'' hcontrol =>
    rw [hcontrol] at hwhole hl'
    exact ⟨_, hwhole, fun _ _ _ => by rw [hl' rfl, hconfirmed]; rfl⟩

theorem stageBody_grows (s : Session) (createArgv : List String) (timeout : Int) (source candidate : String) :
    ∃ l, Grows s (stageBody E P s createArgv timeout source candidate).1 l ∧
      (succeeded (stageBody E P s createArgv timeout source candidate).2 = true →
        l = patched E P createArgv source candidate) := by
  obtain ⟨l, hgrows, hl⟩ := setUp_grows E (opening E P createArgv ++
    [.command ⟨.copyIn, ["podman", "cp", source, P.name ++ ":/tmp/lil-tweak.patch"]⟩])
    (by simp [opening, Setup.commands]) s
  have hfault : ∀ {s' : Session} {l : List Issued} (f : Fault), Grows s s' l → ∃ l', Grows s (handle P s' f).1 l' ∧
      (succeeded (handle P s' f).2 = true → l' = patched E P createArgv source candidate) :=
    fun f h => ⟨_, h.trans (handle_grows P _ f), fun hsucceeded => by rw [succeeded_handle] at hsucceeded; cases hsucceeded⟩
  unfold stageBody
  split
  · next s' f hsetup =>
    rw [hsetup] at hgrows
    exact hfault f hgrows
  next s' hsetup =>
  rw [hsetup] at hgrows hl
  obtain ⟨l', happly, hl'⟩ := applyCandidate_grows E P s' timeout candidate
  have hwhole := hgrows.trans happly
  split
  · next s'' f hrun =>
    rw [hrun] at hwhole
    exact hfault f hwhole
  · next s'' result hrun =>
    rw [hrun] at hwhole hl'
    exact ⟨_, hwhole, fun hsucceeded => by rw [hl rfl, hl' result rfl hsucceeded]; rfl⟩

/-- A staged patch that ends with the removal. -/
theorem close_stageKept {s s' : Session} {l : List Issued} (h : Grows s s' l) {source candidate : String}
    {result : CommandResult}
    (hresult : succeeded result = true → ∃ createArgv, l = patched E P createArgv source candidate) :
    StageKept E P s source candidate (close E P s' (.ok result) (.ok (lifecycleFailureResult P))) := by
  obtain ⟨hfailed, hremoved, hclosed⟩ :=
    close_removed E P h (Except.ok result : Except String _) (.ok (lifecycleFailureResult P))
  refine ⟨hfailed, fun message hmessage => ?_, fun answer hanswer => .inr ⟨l, ?_, fun hsucceeded => ?_⟩⟩
  · rw [hmessage] at hclosed
    obtain hno | hno := hclosed
    · cases hno
    · cases hno
  · rw [hanswer] at hremoved
    exact hremoved.of_ok
  · rw [hanswer] at hclosed
    obtain heq | heq := hclosed
    · exact hresult (by rwa [← Except.ok.inj heq])
    · rw [Except.ok.inj heq, succeeded_lifecycle] at hsucceeded
      cases hsucceeded

theorem stagePatchCandidate_kept (s : Session) (staged : Staged) (source candidate : String) (timeout : Option Int) :
    StageKept E P s source candidate (stagePatchCandidate E P s staged source candidate timeout) := by
  unfold stagePatchCandidate
  cases staged with
  | raised => exact ⟨id, fun _ _ => rfl, fun _ h => by cases h⟩
  | improper =>
    exact ⟨fun _ => rfl, fun _ h => absurd h (by simp), fun result h => .inl ⟨rfl, rfl, (Except.ok.inj h).symm⟩⟩
  | proper =>
    dsimp only
    split
    · exact close_stageKept E P (Grows.read s) fun h => by cases h
    split
    · exact ⟨id, fun _ _ => rfl, fun _ h => by cases h⟩
    · next createArgv _ =>
      obtain ⟨l, hgrows, hl⟩ := stageBody_grows E P s.read createArgv
        (boundedTimeout P timeout (E.remaining s.readings)) source candidate
      exact close_stageKept E P ((Grows.read s).trans hgrows) fun hsucceeded => ⟨createArgv, hl hsucceeded⟩

/-- Whatever the executor and the clock answer, a batch and a staged patch are kept as claimed. -/
theorem container_lifecycle (s : Session) :
    (∀ commands, BatchKept E P s commands.length (runEphemeralBatch E P s commands)) ∧
    ∀ staged source candidate timeout,
      StageKept E P s source candidate (stagePatchCandidate E P s staged source candidate timeout) :=
  ⟨runEphemeralBatch_kept E P s, stagePatchCandidate_kept E P s⟩

end

end LilTweak.Sandbox
