import LilTweak.Evidence.Printed
import Mathlib

/-!
# The readers agree on legible patches

The agent's reader declares exactly the files that print a hunk, and fails where two of their names
fold to one. The runner's reader takes every line that begins with `--- ` for a header, also one
that a hunk deletes. Both agree with the snapshots exactly when neither can happen.
-/

namespace LilTweak.Evidence

open LilTweak.Lib LilTweak.Sources

/-! ## Lines without breaks -/

theorem chomp_cons {c : Char} {rest : Text} (hne : rest ≠ []) (hpair : ¬(c = '\r' ∧ rest = ['\n'])) :
    chomp (c :: rest) = c :: chomp rest := by
  have hdrop : (c :: rest).dropLast = c :: rest.dropLast := List.dropLast_cons_of_ne_nil hne
  unfold chomp
  rw [List.getLast?_cons_of_ne_nil hne, hdrop]
  cases hlast : rest.getLast? with
  | none => rfl
  | some d =>
    simp only
    by_cases hshort : rest.dropLast = []
    · have hrest : rest = [d] := by
        obtain ⟨front, rfl⟩ := List.getLast?_eq_some_iff.mp hlast
        rw [List.dropLast_concat] at hshort
        rw [hshort]
        rfl
      have hno : ¬(d = '\n' ∧ [c].getLast? = some '\r') := by
        rintro ⟨rfl, hc⟩
        exact hpair ⟨Option.some.inj hc, hrest⟩
      have hno' : ¬(d = '\n' ∧ ([] : Text).getLast? = some '\r') := fun h => by cases h.2
      rw [hshort, if_neg hno, if_neg hno']
      split <;> rfl
    · rw [List.getLast?_cons_of_ne_nil hshort, List.dropLast_cons_of_ne_nil hshort]
      split
      · rfl
      · split <;> rfl

/-- A line cut off by `str.splitlines` holds no break. -/
theorem chomp_unbroken {line : Text} (h : splitlines line = [line]) : ∀ c ∈ chomp line, lineBreak c = false := by
  unfold splitlines at h
  induction line with
  | nil =>
    intro d hd
    cases hd
  | cons c rest ih =>
    rw [splitAfter] at h
    by_cases hnil : rest = []
    · subst hnil
      intro d hd
      unfold chomp at hd
      simp only [List.getLast?_singleton, List.dropLast_singleton] at hd
      rw [if_neg (by simp)] at hd
      by_cases hbreak : lineBreak c = true
      · rw [if_pos hbreak] at hd
        cases hd
      · rw [if_neg hbreak, List.mem_singleton] at hd
        rw [hd]
        exact Bool.not_eq_true _ ▸ hbreak
    · by_cases hcut : breaksAfter c rest = true
      · rw [if_pos hcut] at h
        exact absurd (List.cons.inj (List.cons.inj h).1).2.symm hnil
      · rw [if_neg hcut] at h
        have hrest := consHead_singleton h hnil
        by_cases hpair : c = '\r' ∧ rest = ['\n']
        · obtain ⟨rfl, rfl⟩ := hpair
          intro d hd
          cases hd
        · rw [chomp_cons hnil hpair]
          intro d hd
          rcases List.mem_cons.mp hd with rfl | hd
          · by_contra hbreak
            rw [Bool.not_eq_false] at hbreak
            rw [breaksAfter, hbreak, Bool.true_and, Bool.not_eq_true, Bool.not_eq_false'] at hcut
            rw [Bool.and_eq_true, beq_iff_eq, beq_iff_eq] at hcut
            obtain ⟨rfl, hhead⟩ := hcut
            cases rest with
            | nil => exact hnil rfl
            | cons e more =>
              obtain rfl : e = '\n' := Option.some.inj hhead
              have hmore : more = [] := by
                rw [splitAfter, if_pos (by rfl)] at hrest
                exact (List.cons.inj (List.cons.inj hrest).1).2.symm
              exact hpair ⟨rfl, by rw [hmore]⟩
          · exact ih hrest d hd

theorem textLines_unbroken {text line : Text} (h : line ∈ textLines text) : ∀ c ∈ line, lineBreak c = false := by
  obtain ⟨whole, hwhole, rfl⟩ := List.mem_map.mp h
  exact chomp_unbroken (splitlines_line hwhole)

/-! ## What the agent's reader declares -/

variable {casefold : String → String}

/-- The declared paths, each under its folded form. -/
def Declared (casefold : String → String) (declared : Dict String String) (paths : Set String) : Prop :=
  ∀ folded path, declared.get? folded = some path ↔ path ∈ paths ∧ casefold path = folded

theorem declared_empty : Declared casefold ∅ ∅ := by
  intro folded path
  rw [Dict.get?_empty]
  exact ⟨nofun, fun h => absurd h.1 (Set.notMem_empty _)⟩

theorem Declared.injOn {declared : Dict String String} {paths : Set String}
    (h : Declared casefold declared paths) : Set.InjOn casefold paths := by
  intro x hx y hy hxy
  have hx' := (h (casefold x) x).mpr ⟨hx, rfl⟩
  have hy' := (h (casefold y) y).mpr ⟨hy, rfl⟩
  rw [hxy, hy'] at hx'
  exact (Option.some.inj hx').symm

theorem Declared.values {declared : Dict String String} {paths : Set String}
    (h : Declared casefold declared paths) (path : String) : path ∈ declared.values ↔ path ∈ paths := by
  rw [Dict.mem_values_iff]
  exact ⟨fun ⟨folded, hget⟩ => ((h folded path).mp hget).1, fun hpath => ⟨_, (h _ path).mpr ⟨hpath, rfl⟩⟩⟩

theorem Declared.set {declared : Dict String String} {paths : Set String} (h : Declared casefold declared paths)
    {path : String} (hfree : ∀ other ∈ paths, casefold other = casefold path → other = path) :
    Declared casefold (declared.set (casefold path) path) (insert path paths) := by
  intro folded other
  rw [Dict.get?_set]
  by_cases hkey : folded = casefold path
  · rw [if_pos hkey, hkey]
    constructor
    · intro hother
      obtain rfl := Option.some.inj hother
      exact ⟨Set.mem_insert _ _, rfl⟩
    · rintro ⟨hmem, hfold⟩
      rcases Set.mem_insert_iff.mp hmem with rfl | hmem
      · rfl
      · rw [hfree other hmem hfold]
  · rw [if_neg hkey, h folded other]
    constructor
    · exact fun hother => ⟨Set.mem_insert_of_mem _ hother.1, hother.2⟩
    · rintro ⟨hmem, hfold⟩
      rcases Set.mem_insert_iff.mp hmem with rfl | hmem
      · exact absurd hfold.symm hkey
      · exact ⟨hmem, hfold⟩

/-- A path is recorded unless another one has its folded form. -/
theorem declare_path {declared : Dict String String} {paths : Set String} (h : Declared casefold declared paths)
    (path : String) :
    (Set.InjOn casefold (insert path paths) → ∃ declared', declare casefold declared (some path) = some declared') ∧
      ∀ declared', declare casefold declared (some path) = some declared' →
        Declared casefold declared' (insert path paths) := by
  unfold declare
  cases hget : declared.get? (casefold path) with
  | none =>
    simp only [hget]
    refine ⟨fun _ => ⟨_, rfl⟩, ?_⟩
    intro declared' hset
    obtain rfl := Option.some.inj hset
    apply h.set
    intro other hmem hfold
    rw [(h (casefold path) other).mpr ⟨hmem, hfold⟩] at hget
    cases hget
  | some existing =>
    obtain ⟨hmem, hfold⟩ := (h _ _).mp hget
    simp only [hget]
    by_cases hsame : existing ≠ path
    · rw [if_pos hsame]
      constructor
      · intro hinj
        exact absurd (hinj (Set.mem_insert_of_mem _ hmem) (Set.mem_insert _ _) hfold) hsame
      · intro declared' hset
        cases hset
    · rw [if_neg hsame]
      rw [not_not] at hsame
      subst hsame
      refine ⟨fun _ => ⟨_, rfl⟩, ?_⟩
      intro declared' hset
      obtain rfl := Option.some.inj hset
      apply h.set
      intro other hother hfold'
      exact h.injOn hother hmem hfold'

/-- The two names of a file record one path. -/
theorem declare_sides {declared : Dict String String} {paths : Set String} (h : Declared casefold declared paths)
    {path : String} {before after : Option String} (hbefore : before = none ∨ before = some path)
    (hafter : after = none ∨ after = some path) (hsome : ¬(before = none ∧ after = none)) :
    (Set.InjOn casefold (insert path paths) →
      ∃ declared', ((declare casefold declared before).bind fun d => declare casefold d after) = some declared') ∧
      ∀ declared', ((declare casefold declared before).bind fun d => declare casefold d after) = some declared' →
        Declared casefold declared' (insert path paths) := by
  rcases hbefore with rfl | rfl
  · rcases hafter with rfl | rfl
    · exact absurd ⟨rfl, rfl⟩ hsome
    · exact declare_path h path
  · obtain ⟨hgo, hget⟩ := declare_path h path
    rcases hafter with rfl | rfl
    · have hend : ((declare casefold declared (some path)).bind fun d => declare casefold d none) =
          declare casefold declared (some path) := Option.bind_fun_some _
      rw [hend]
      exact ⟨hgo, hget⟩
    · refine ⟨?_, ?_⟩
      · intro hinj
        obtain ⟨declared', hset⟩ := hgo hinj
        obtain ⟨hgo', -⟩ := declare_path (hget declared' hset) path
        rw [hset, Option.bind_some]
        apply hgo'
        rw [Set.insert_idem]
        exact hinj
      · intro declared' hset
        obtain ⟨middle, hmiddle, hset⟩ := Option.bind_eq_some_iff.mp hset
        have hdeclared := (declare_path (hget middle hmiddle) path).2 declared' hset
        rwa [Set.insert_idem] at hdeclared

/-! ## The agent's reader on a patch -/

theorem patchPath_header (mark side : String) {name : String} (hmark : mark.toList.length = 4) (hside : side.toList.length = 2)
    (hnull : startsWith "/" side.toList = false) (htab : '\t' ∉ side.toList) (hname : '\t' ∉ name.toList)
    (hport : validatePortablePath casefold name = .ok name) (data : Option Bytes) :
    patchPath casefold (nameHeader mark side name data) side = some (data.map fun _ => name) := by
  have hdrop : (nameHeader mark side name data).drop 4 = headerName side name data := by
    unfold nameHeader
    rw [← hmark, List.drop_left]
  have hkeep : ∀ line : Text, '\t' ∉ line → line.takeWhile (fun c => decide (c ≠ '\t')) = line := by
    intro line hline
    rw [List.takeWhile_eq_self_iff]
    intro c hc
    simp only [decide_eq_true_eq]
    rintro rfl
    exact hline hc
  unfold patchPath
  rw [hdrop]
  cases data with
  | none =>
    have htake : (headerName side name none).takeWhile (fun c => decide (c ≠ '\t')) = "/dev/null".toList :=
      hkeep "/dev/null".toList (by decide)
    simp only [htake]
    rfl
  | some data =>
    have hline : '\t' ∉ side.toList ++ name.toList := by
      intro hm
      rcases List.mem_append.mp hm with hm | hm
      · exact htab hm
      · exact hname hm
    have htake : (headerName side name (some data)).takeWhile (fun c => decide (c ≠ '\t')) =
        side.toList ++ name.toList := hkeep _ hline
    have hother : ¬side.toList ++ name.toList = "/dev/null".toList := by
      intro heq
      cases hs : side.toList with
      | nil =>
        rw [hs] at hside
        cases hside
      | cons c rest =>
        rw [hs] at heq hnull
        obtain rfl : c = '/' := (List.cons.inj heq).1
        cases hnull
    have hstart : startsWith side (side.toList ++ name.toList) = true := startsWith_append _ _
    have hrest : (side.toList ++ name.toList).drop 2 = name.toList := by rw [← hside, List.drop_left]
    simp only [htake, if_neg hother, hstart, hrest, String.ofList_toList, hport]
    rfl

section
variable {sha256 : Sha256} {baseline final : WorkspaceSnapshot} {maxBytes : Int}

/-- The file prints a hunk. -/
def Shows (baseline final : WorkspaceSnapshot) (name : String) : Prop :=
  groupsOf (baseline.text name) (final.text name) ≠ []

theorem readLines_shown {name : String} (h : Shows baseline final name) :
    readLines baseline final name = nameHeader "--- " "a/" name (baseline.contents.get? name) ::
      nameHeader "+++ " "b/" name (final.contents.get? name) ::
        bodyLines (baseline.text name) (final.text name) (groupsOf (baseline.text name) (final.text name)) := by
  have hgroups : groupsOf (baseline.text name) (final.text name) ≠ [] := h
  unfold readLines fileLines
  rw [if_neg hgroups]

theorem readLines_hidden {name : String} (h : ¬Shows baseline final name) : readLines baseline final name = [] := by
  have hgroups : groupsOf (baseline.text name) (final.text name) = [] := not_not.mp h
  unfold readLines fileLines
  rw [if_pos hgroups]

/-- A file that prints nothing is an empty one that appears or disappears. -/
theorem shows_iff {name : String} (h : Printable baseline final name) :
    Shows baseline final name ↔ ¬EmptyChange (baseline.contents.get? name) (final.contents.get? name) := by
  constructor
  · intro hshow hempty
    have hnil : encodeUtf8 (baseline.text name) = encodeUtf8 [] ∧ encodeUtf8 (final.text name) = encodeUtf8 [] := by
      rw [h.old, h.new]
      rcases hempty with ⟨hb, hf⟩ | ⟨hb, hf⟩
      · rw [hb, hf]
        exact ⟨rfl, rfl⟩
      · rw [hb, hf]
        exact ⟨rfl, rfl⟩
    apply hshow
    rw [encodeUtf8_injective hnil.1, encodeUtf8_injective hnil.2]
    rfl
  · intro hsome hgroups
    have htext := eq_of_no_groups h.oldText h.newText hgroups
    exact hsome (emptyChange_of_text h.changed (by rw [← h.old, ← h.new, htext]))

theorem readLines_next (names : List String) : NextFile (names.flatMap (readLines baseline final)) := by
  induction names with
  | nil => exact nofun
  | cons name names ih =>
    rw [List.flatMap_cons]
    by_cases hshow : Shows baseline final name
    · rw [readLines_shown hshow]
      intro line hline
      obtain rfl := Option.some.inj hline
      exact startsWith_append "--- " _
    · rw [readLines_hidden hshow]
      exact ih

theorem name_no_tab {name : String} (h : Printable baseline final name) : '\t' ∉ name.toList := fun hm =>
  absurd (name_controlFree h.changed _ hm).1 (by decide)

/-- The reader takes a whole file at a time. -/
theorem readDeclared_file {name : String} (h : Printable baseline final name) (hshow : Shows baseline final name)
    (hport : validatePortablePath casefold name = .ok name) {rest : List Text} (hrest : NextFile rest)
    (declared : Dict String String) (n p : Nat) :
    readDeclared casefold (n + 1) declared p (readLines baseline final name ++ rest) =
      ((declare casefold declared ((baseline.contents.get? name).map fun _ => name)).bind fun d =>
        declare casefold d ((final.contents.get? name).map fun _ => name)).bind fun d =>
          readDeclared casefold n d (p + 1) rest := by
  have hminus : startsWith "--- " (nameHeader "--- " "a/" name (baseline.contents.get? name)) = true :=
    startsWith_append _ _
  have hplus : startsWith "+++ " (nameHeader "+++ " "b/" name (final.contents.get? name)) = true :=
    startsWith_append _ _
  have hno : startsWith "+++ " (nameHeader "--- " "a/" name (baseline.contents.get? name)) = false :=
    startsWith_other hminus fun _ => rfl
  have hold := patchPath_header "--- " "a/" rfl rfl rfl (by decide) (name_no_tab h) hport
    (baseline.contents.get? name)
  have hnew := patchPath_header "+++ " "b/" rfl rfl rfl (by decide) (name_no_tab h) hport
    (final.contents.get? name)
  have hhunks := readFileHunks_body h.oldText h.newText hrest (groupsOf (baseline.text name) (final.text name))
    (fun g hg => hg) _ 0 (Nat.le_refl _)
  have hcount : ¬0 + (groupsOf (baseline.text name) (final.text name)).length = 0 := by
    rw [Nat.zero_add]
    exact fun hz => hshow (List.length_eq_zero_iff.mp hz)
  have hpair : ¬(((baseline.contents.get? name).map fun _ => name).isNone =
        ((final.contents.get? name).map fun _ => name).isNone ∧
      (((baseline.contents.get? name).map fun _ => name).isNone = true ∨
        ((baseline.contents.get? name).map fun _ => name) ≠ (final.contents.get? name).map fun _ => name)) := by
    have hchange := h.changed
    cases hb : baseline.contents.get? name with
    | none =>
      cases hf : final.contents.get? name with
      | none => exact absurd (hb.trans hf.symm) hchange
      | some new => exact fun hc => Bool.false_ne_true hc.1.symm
    | some old =>
      cases final.contents.get? name with
      | none => exact fun hc => Bool.false_ne_true hc.1
      | some new => simp
  rw [readLines_shown hshow, List.cons_append, List.cons_append, readDeclared]
  simp only [hno, hminus, hplus, hold, hnew, Bool.false_eq_true, Bool.true_eq_false, if_false, Option.bind_eq_bind,
    Option.bind_some, if_neg hpair, hhunks, if_neg hcount, Option.bind_assoc]

/-- The reader declares exactly the files that print a hunk. -/
theorem readDeclared_files {names : List String} (hprint : ∀ name ∈ names, Printable baseline final name)
    (hport : ∀ name ∈ names, validatePortablePath casefold name = .ok name) (n p : Nat)
    (hn : (names.flatMap (readLines baseline final)).length ≤ n) {declared : Dict String String} {paths : Set String}
    (h : Declared casefold declared paths) :
    (Set.InjOn casefold (paths ∪ {name | name ∈ names ∧ Shows baseline final name}) →
      ∃ r, readDeclared casefold n declared p (names.flatMap (readLines baseline final)) = some r) ∧
      ∀ r, readDeclared casefold n declared p (names.flatMap (readLines baseline final)) = some r →
        Declared casefold r.1 (paths ∪ {name | name ∈ names ∧ Shows baseline final name}) ∧ p ≤ r.2 ∧
          ((∃ name ∈ names, Shows baseline final name) → p < r.2) := by
  induction names generalizing n p declared paths with
  | nil =>
    have hend : readDeclared casefold n declared p [] = some (declared, p) := by cases n <;> rfl
    have hset : paths ∪ {name | name ∈ ([] : List String) ∧ Shows baseline final name} = paths := by simp
    rw [List.flatMap_nil, hend, hset]
    refine ⟨fun _ => ⟨_, rfl⟩, ?_⟩
    intro r hr
    obtain rfl := Option.some.inj hr
    exact ⟨h, Nat.le_refl _, fun hex => absurd hex (by simp)⟩
  | cons name names ih =>
    have hfile := hprint name List.mem_cons_self
    have hprint' := fun x hx => hprint x (List.mem_cons_of_mem _ hx)
    have hport' := fun x hx => hport x (List.mem_cons_of_mem _ hx)
    rw [List.flatMap_cons] at hn ⊢
    by_cases hshow : Shows baseline final name
    · have hset : paths ∪ {x | x ∈ name :: names ∧ Shows baseline final x} =
          insert name paths ∪ {x | x ∈ names ∧ Shows baseline final x} := by
        ext x
        simp only [Set.mem_union, Set.mem_ofPred_eq, List.mem_cons, Set.mem_insert_iff]
        constructor
        · rintro (hx | ⟨rfl | hx, hs⟩)
          · exact .inl (.inr hx)
          · exact .inl (.inl rfl)
          · exact .inr ⟨hx, hs⟩
        · rintro ((rfl | hx) | hx)
          · exact .inr ⟨.inl rfl, hshow⟩
          · exact .inl hx
          · exact .inr ⟨.inr hx.1, hx.2⟩
      have hlong : 2 ≤ (readLines baseline final name).length := by
        rw [readLines_shown hshow, List.length_cons, List.length_cons]
        omega
      rw [List.length_append] at hn
      obtain ⟨m, rfl⟩ : ∃ m, n = m + 1 := ⟨n - 1, by omega⟩
      have hm : (names.flatMap (readLines baseline final)).length ≤ m := by omega
      have hside : ∀ data : Option Bytes, (data.map fun _ => name) = none ∨ (data.map fun _ => name) = some name := by
        intro data
        cases data with
        | none => exact .inl rfl
        | some data => exact .inr rfl
      have hsome : ¬(((baseline.contents.get? name).map fun _ => name) = none ∧
          ((final.contents.get? name).map fun _ => name) = none) := by
        rintro ⟨hb, hf⟩
        exact hfile.changed ((Option.map_eq_none_iff.mp hb).trans (Option.map_eq_none_iff.mp hf).symm)
      obtain ⟨hgo, hget⟩ := declare_sides h (hside _) (hside _) hsome
      rw [readDeclared_file hfile hshow (hport name List.mem_cons_self) (readLines_next names), hset]
      refine ⟨?_, ?_⟩
      · intro hinj
        obtain ⟨declared', hdeclared⟩ := hgo (hinj.mono Set.subset_union_left)
        rw [hdeclared, Option.bind_some]
        exact (ih hprint' hport' m (p + 1) hm (hget declared' hdeclared)).1 hinj
      · intro r hr
        obtain ⟨declared', hdeclared, hr⟩ := Option.bind_eq_some_iff.mp hr
        obtain ⟨hall, hle, -⟩ := (ih hprint' hport' m (p + 1) hm (hget declared' hdeclared)).2 r hr
        exact ⟨hall, by omega, fun _ => by omega⟩
    · have hset : {x | x ∈ name :: names ∧ Shows baseline final x} = {x | x ∈ names ∧ Shows baseline final x} := by
        ext x
        simp only [Set.mem_ofPred_eq, List.mem_cons]
        constructor
        · rintro ⟨rfl | hx, hs⟩
          · exact absurd hs hshow
          · exact ⟨hx, hs⟩
        · exact fun hx => ⟨.inr hx.1, hx.2⟩
      rw [readLines_hidden hshow, List.nil_append] at hn ⊢
      rw [hset]
      obtain ⟨hgo, hget⟩ := ih hprint' hport' n p hn h
      refine ⟨hgo, ?_⟩
      intro r hr
      obtain ⟨hall, hle, hlt⟩ := hget r hr
      refine ⟨hall, hle, ?_⟩
      rintro ⟨x, hx, hs⟩
      rcases List.mem_cons.mp hx with rfl | hx
      · exact absurd hs hshow
      · exact hlt ⟨x, hx, hs⟩

/-! ## What a declared path looks like -/

theorem declare_values {declared declared' : Dict String String} {path : Option String}
    (h : declare casefold declared path = some declared') {other : String} (hother : other ∈ declared'.values) :
    other ∈ declared.values ∨ path = some other := by
  have hset : ∀ name, declared' = declared.set (casefold name) name → other ∈ declared.values ∨ name = other := by
    rintro name rfl
    obtain ⟨folded, hget⟩ := (Dict.mem_values_iff _ _).mp hother
    rw [Dict.get?_set] at hget
    split at hget
    · exact .inr (Option.some.inj hget)
    · exact .inl ((Dict.mem_values_iff _ _).mpr ⟨folded, hget⟩)
  unfold declare at h
  cases path with
  | none =>
    obtain rfl := Option.some.inj h
    exact .inl hother
  | some name =>
    simp only at h
    have hdone : declared' = declared.set (casefold name) name := by
      split at h
      · split at h
        · cases h
        · exact (Option.some.inj h).symm
      · exact (Option.some.inj h).symm
    exact (hset name hdone).imp id fun hname => by rw [hname]

theorem patchPath_sound {header : Text} {side path : String} (h : patchPath casefold header side = some (some path)) :
    validatePortablePath casefold path = .ok path ∧ path.toList ⊆ header := by
  unfold patchPath at h
  simp only at h
  split at h
  · cases h
  · split at h
    · cases h
    · split at h
      · next portable hport =>
        split at h
        · next heq =>
          obtain rfl := Option.some.inj (Option.some.inj h)
          refine ⟨by rwa [heq] at hport ⊢, ?_⟩
          rw [heq, String.toList_ofList]
          intro c hc
          exact List.drop_subset _ _ (List.takeWhile_subset _ (List.drop_subset _ _ hc))
        · cases h
      · cases h

end

theorem readCounted_subset {lines rest : List Text} (seen : Bool) (old new : Nat)
    (h : readCounted seen old new lines = some rest) : rest ⊆ lines := by
  induction lines generalizing seen old new with
  | nil =>
    rw [readCounted.eq_def] at h
    simp only at h
    split at h
    · rw [← Option.some.inj h]
      exact List.Subset.refl _
    · cases h
  | cons line lines ih =>
    have hstep : ∀ seen old new, readCounted seen old new lines = some rest → rest ⊆ line :: lines :=
      fun seen old new hr => List.subset_cons_of_subset _ (ih seen old new hr)
    rw [readCounted_cons] at h
    split at h
    · exact hstep _ _ _ h
    · split at h
      · rw [← Option.some.inj h]
        exact List.Subset.refl _
      · split at h
        · split at h
          · cases h
          · exact hstep _ _ _ h
        · split at h
          · cases h
          · exact hstep _ _ _ h
        · split at h
          · cases h
          · exact hstep _ _ _ h
        · cases h

theorem readFileHunks_subset {lines : List Text} (n hunks : Nat) {r : Nat × List Text}
    (h : readFileHunks n hunks lines = some r) : r.2 ⊆ lines := by
  induction n generalizing hunks lines with
  | zero =>
    cases lines with
    | nil =>
      rw [← Option.some.inj h]
      exact List.Subset.refl _
    | cons line lines => cases h
  | succ n ih =>
    cases lines with
    | nil =>
      rw [← Option.some.inj h]
      exact List.Subset.refl _
    | cons line lines =>
      rw [readFileHunks] at h
      split at h
      · rw [← Option.some.inj h]
        exact List.Subset.refl _
      · split at h
        · cases h
        · split at h
          · exact List.subset_cons_of_subset _ (ih _ h)
          · split at h
            · cases h
            · next hcounted =>
              exact List.subset_cons_of_subset _ (List.Subset.trans (ih _ h) (readCounted_subset _ _ _ hcounted))

/-- A path the agent's reader can declare. -/
def Declarable (casefold : String → String) (path : String) : Prop :=
  validatePortablePath casefold path = .ok path ∧ Unbroken path

theorem readDeclared_declarable (n : Nat) {declared : Dict String String} {p : Nat} {lines : List Text}
    (hlines : ∀ line ∈ lines, ∀ c ∈ line, lineBreak c = false) (h : ∀ path ∈ declared.values, Declarable casefold path)
    {r : Dict String String × Nat} (hr : readDeclared casefold n declared p lines = some r) :
    ∀ path ∈ r.1.values, Declarable casefold path := by
  induction n generalizing declared p lines with
  | zero =>
    cases lines with
    | nil =>
      rw [← Option.some.inj hr]
      exact h
    | cons line lines => cases hr
  | succ n ih =>
    cases lines with
    | nil =>
      rw [← Option.some.inj hr]
      exact h
    | cons line lines =>
      have hrest : ∀ rest ⊆ lines, ∀ l ∈ rest, ∀ c ∈ l, lineBreak c = false := fun rest hsub l hl =>
        hlines l (List.mem_cons_of_mem _ (hsub hl))
      rw [readDeclared.eq_def] at hr
      simp only at hr
      split at hr
      · cases hr
      · split at hr
        · exact ih (hrest _ (List.Subset.refl _)) h hr
        · cases lines with
          | nil => cases hr
          | cons next lines =>
            simp only at hr
            split at hr
            · cases hr
            · obtain ⟨before, hbefore, hr⟩ := Option.bind_eq_some_iff.mp hr
              obtain ⟨after, hafter, hr⟩ := Option.bind_eq_some_iff.mp hr
              split at hr
              · cases hr
              · obtain ⟨middle, hmiddle, hr⟩ := Option.bind_eq_some_iff.mp hr
                obtain ⟨both, hboth, hr⟩ := Option.bind_eq_some_iff.mp hr
                obtain ⟨⟨hunks, rest⟩, hhunks, hr⟩ := Option.bind_eq_some_iff.mp hr
                simp only at hr
                split at hr
                · cases hr
                · have hside : ∀ (header : Text) (side path : String), header ∈ line :: next :: lines →
                      patchPath casefold header side = some (some path) → Declarable casefold path := by
                    intro header side path hmem hpath
                    obtain ⟨hport, hsub⟩ := patchPath_sound hpath
                    exact ⟨hport, fun c hc => hlines header hmem c (hsub hc)⟩
                  apply ih (hrest rest (List.subset_cons_of_subset _ (readFileHunks_subset _ _ hhunks))) _ hr
                  intro path hpath
                  rcases declare_values hboth hpath with hpath | rfl
                  · rcases declare_values hmiddle hpath with hpath | rfl
                    · exact h path hpath
                    · exact hside line "a/" path (by simp) hbefore
                  · exact hside next "b/" path (by simp) hafter

theorem declaredPatchPaths_declarable {patch : Text} {paths : List String}
    (h : declaredPatchPaths casefold patch = some paths) : ∀ path ∈ paths, Declarable casefold path := by
  unfold declaredPatchPaths at h
  obtain ⟨⟨declared, pairs⟩, hread, h⟩ := Option.bind_eq_some_iff.mp h
  simp only at h
  split at h
  · cases h
  · rw [← Option.some.inj h]
    exact readDeclared_declarable _ (fun line hline => textLines_unbroken hline) (fun path hpath => by cases hpath)
      hread

/-! ## What the runner's reader selects -/

/-- The line begins like a header, and `next` follows it. -/
def HeaderAt (lines : List Text) (line : Text) (next : Option Text) : Prop :=
  ∃ front rest, lines = front ++ line :: rest ∧ startsWith "--- " line = true ∧ rest.head? = next

theorem headerAt_cons {first : Text} {lines : List Text} {line : Text} {next : Option Text} :
    HeaderAt (first :: lines) line next ↔
      (first = line ∧ startsWith "--- " line = true ∧ lines.head? = next) ∨ HeaderAt lines line next := by
  constructor
  · rintro ⟨front, rest, hlines, hstart, hnext⟩
    cases front with
    | nil =>
      obtain ⟨rfl, rfl⟩ := List.cons.inj hlines
      exact .inl ⟨rfl, hstart, hnext⟩
    | cons _ front =>
      obtain ⟨-, rfl⟩ := List.cons.inj hlines
      exact .inr ⟨front, rest, rfl, hstart, hnext⟩
  · rintro (⟨rfl, hstart, hnext⟩ | ⟨front, rest, rfl, hstart, hnext⟩)
    · exact ⟨[], lines, rfl, hstart, hnext⟩
    · exact ⟨first :: front, rest, rfl, hstart, hnext⟩

theorem headerAt_nil {line : Text} {next : Option Text} : ¬HeaderAt [] line next := by
  rintro ⟨front, rest, hlines, -⟩
  cases front <;> cases hlines

/-- A header that the runner's reader takes. -/
def Selects (line : Text) (next : Option Text) (path : Text) : Prop :=
  ∃ after, next = some after ∧ startsWith "+++ " after = true ∧ selectedPath line after = path ∧
    runnerPath path = true

theorem readPaths_cons (paths : List Text) (line : Text) (rest : List Text) :
    readPaths paths (line :: rest) =
      if startsWith "diff --git a/" line then
        match gitHeaderPath line with
        | none => none
        | some path => readPaths (if path ∈ paths then paths else paths ++ [path]) rest
      else if startsWith "--- " line = false then readPaths paths rest
      else
        match rest with
        | [] => none
        | next :: _ =>
          if startsWith "+++ " next = false then none
          else if runnerPath (selectedPath line next) = false then none
          else readPaths (paths ++ [selectedPath line next]) rest :=
  readPaths.eq_def paths (line :: rest)

/-- The reader takes every line that begins like a header. -/
theorem readPaths_headers {lines : List Text} (hgit : ∀ line ∈ lines, startsWith "diff --git a/" line = false)
    (paths : List Text) :
    ((∀ line next, HeaderAt lines line next → ∃ path, Selects line next path) →
      ∃ all, readPaths paths lines = some all) ∧
      ∀ all, readPaths paths lines = some all → (∀ line next, HeaderAt lines line next → ∃ path, Selects line next path) ∧
        ∀ path, path ∈ all ↔ path ∈ paths ∨ ∃ line next, HeaderAt lines line next ∧ Selects line next path := by
  induction lines generalizing paths with
  | nil =>
    refine ⟨fun _ => ⟨paths, rfl⟩, ?_⟩
    intro all hall
    obtain rfl := Option.some.inj hall
    refine ⟨fun _ _ hat => absurd hat headerAt_nil, fun path => ⟨.inl, ?_⟩⟩
    rintro (hpath | ⟨_, _, hat, -⟩)
    · exact hpath
    · exact absurd hat headerAt_nil
  | cons first lines ih =>
    have hfirst : ¬startsWith "diff --git a/" first = true := by
      rw [hgit first List.mem_cons_self]
      exact Bool.false_ne_true
    have ih' := ih fun line hline => hgit line (List.mem_cons_of_mem _ hline)
    rw [readPaths_cons, if_neg hfirst]
    by_cases hstart : startsWith "--- " first = false
    · have hat : ∀ line next, HeaderAt (first :: lines) line next ↔ HeaderAt lines line next := by
        intro line next
        rw [headerAt_cons]
        refine ⟨?_, .inr⟩
        rintro (⟨rfl, hs, -⟩ | hat)
        · rw [hstart] at hs
          cases hs
        · exact hat
      rw [if_pos hstart]
      simp only [hat]
      exact ih' paths
    · rw [if_neg hstart]
      rw [Bool.not_eq_false] at hstart
      have hhere : HeaderAt (first :: lines) first lines.head? := headerAt_cons.mpr (.inl ⟨rfl, hstart, rfl⟩)
      cases lines with
      | nil =>
        refine ⟨?_, nofun⟩
        intro htakes
        obtain ⟨_, _, hnone, -⟩ := htakes _ _ hhere
        cases hnone
      | cons next lines =>
        simp only
        by_cases hplus : startsWith "+++ " next = false
        · rw [if_pos hplus]
          refine ⟨?_, nofun⟩
          intro htakes
          obtain ⟨_, after, hafter, hs, -⟩ := htakes _ _ hhere
          obtain rfl := Option.some.inj hafter
          rw [hplus] at hs
          cases hs
        · rw [if_neg hplus]
          rw [Bool.not_eq_false] at hplus
          by_cases hpath : runnerPath (selectedPath first next) = false
          · rw [if_pos hpath]
            refine ⟨?_, nofun⟩
            intro htakes
            obtain ⟨_, after, hafter, -, rfl, hrun⟩ := htakes _ _ hhere
            obtain rfl := Option.some.inj hafter
            rw [hpath] at hrun
            cases hrun
          · rw [if_neg hpath]
            rw [Bool.not_eq_false] at hpath
            have hselects : Selects first (some next) (selectedPath first next) := ⟨next, rfl, hplus, rfl, hpath⟩
            obtain ⟨hgo, hget⟩ := ih' (paths ++ [selectedPath first next])
            refine ⟨?_, ?_⟩
            · intro htakes
              exact hgo fun line n hat => htakes line n (headerAt_cons.mpr (.inr hat))
            · intro all hall
              obtain ⟨htakes, hmem⟩ := hget all hall
              refine ⟨?_, ?_⟩
              · intro line n hat
                rcases headerAt_cons.mp hat with ⟨rfl, -, rfl⟩ | hat
                · exact ⟨_, hselects⟩
                · exact htakes line n hat
              · intro path
                rw [hmem path, List.mem_append, List.mem_singleton]
                constructor
                · rintro ((hold | rfl) | ⟨line, n, hat, hs⟩)
                  · exact .inl hold
                  · exact .inr ⟨first, _, hhere, hselects⟩
                  · exact .inr ⟨line, n, headerAt_cons.mpr (.inr hat), hs⟩
                · rintro (hold | ⟨line, n, hat, hs⟩)
                  · exact .inl (.inl hold)
                  · rcases headerAt_cons.mp hat with ⟨rfl, -, rfl⟩ | hat
                    · obtain ⟨after, hafter, -, rfl, -⟩ := hs
                      obtain rfl := Option.some.inj hafter
                      exact .inl (.inr rfl)
                    · exact .inr ⟨line, n, hat, hs⟩

/-- Every line that begins like a header is one the runner takes. -/
def Takes (lines : List Text) : Prop := ∀ line next, HeaderAt lines line next → ∃ path, Selects line next path

/-- A line that begins like a header selects the path. -/
def Selected (lines : List Text) (path : Text) : Prop := ∃ line next, HeaderAt lines line next ∧ Selects line next path

/-- What follows cannot complete a header. -/
def NoPlus (rest : List Text) : Prop := ∀ line ∈ rest.head?, startsWith "+++ " line = false

theorem headerAt_append {lines rest : List Text} {line : Text} {next : Option Text} :
    HeaderAt (lines ++ rest) line next ↔
      (∃ inside, HeaderAt lines line inside ∧ inside.or rest.head? = next) ∨ HeaderAt rest line next := by
  induction lines with
  | nil =>
    refine ⟨.inr, ?_⟩
    rintro (⟨_, hat, -⟩ | hat)
    · exact absurd hat headerAt_nil
    · exact hat
  | cons first lines ih =>
    have hhead : (lines ++ rest).head? = lines.head?.or rest.head? := List.head?_append
    rw [List.cons_append, headerAt_cons, ih, hhead]
    constructor
    · rintro (⟨rfl, hs, hn⟩ | ⟨inside, hat, hn⟩ | hat)
      · exact .inl ⟨_, headerAt_cons.mpr (.inl ⟨rfl, hs, rfl⟩), hn⟩
      · exact .inl ⟨inside, headerAt_cons.mpr (.inr hat), hn⟩
      · exact .inr hat
    · rintro (⟨inside, hat, hn⟩ | hat)
      · rcases headerAt_cons.mp hat with ⟨rfl, hs, rfl⟩ | hat
        · exact .inl ⟨rfl, hs, hn⟩
        · exact .inr (.inl ⟨inside, hat, hn⟩)
      · exact .inr (.inr hat)

theorem selects_or {rest : List Text} (hrest : NoPlus rest) {line : Text} {inside : Option Text} {path : Text} :
    Selects line (inside.or rest.head?) path ↔ Selects line inside path := by
  cases inside with
  | some after => rfl
  | none =>
    constructor
    · rintro ⟨after, hafter, hplus, -⟩
      rw [hrest after hafter] at hplus
      cases hplus
    · rintro ⟨_, hnone, -⟩
      cases hnone

theorem takes_append {lines rest : List Text} (hrest : NoPlus rest) :
    Takes (lines ++ rest) ↔ Takes lines ∧ Takes rest := by
  constructor
  · intro h
    refine ⟨?_, ?_⟩
    · intro line inside hat
      obtain ⟨path, hpath⟩ := h line _ (headerAt_append.mpr (.inl ⟨inside, hat, rfl⟩))
      exact ⟨path, (selects_or hrest).mp hpath⟩
    · intro line next hat
      exact h line next (headerAt_append.mpr (.inr hat))
  · rintro ⟨hfirst, hsecond⟩ line next hat
    rcases headerAt_append.mp hat with ⟨inside, hin, rfl⟩ | hat
    · obtain ⟨path, hpath⟩ := hfirst line inside hin
      exact ⟨path, (selects_or hrest).mpr hpath⟩
    · exact hsecond line next hat

theorem selected_append {lines rest : List Text} (hrest : NoPlus rest) {path : Text} :
    Selected (lines ++ rest) path ↔ Selected lines path ∨ Selected rest path := by
  constructor
  · rintro ⟨line, next, hat, hpath⟩
    rcases headerAt_append.mp hat with ⟨inside, hin, rfl⟩ | hat
    · exact .inl ⟨line, inside, hin, (selects_or hrest).mp hpath⟩
    · exact .inr ⟨line, next, hat, hpath⟩
  · rintro (⟨line, inside, hat, hpath⟩ | ⟨line, next, hat, hpath⟩)
    · exact ⟨line, _, headerAt_append.mpr (.inl ⟨inside, hat, rfl⟩), (selects_or hrest).mpr hpath⟩
    · exact ⟨line, next, headerAt_append.mpr (.inr hat), hpath⟩

theorem NextFile.noPlus {rest : List Text} (h : NextFile rest) : NoPlus rest := fun line hline =>
  startsWith_other (h line hline) fun _ => rfl

variable {s t : Text}

theorem bodyLines_noPlus (gs : List (List Opcode)) : NoPlus (bodyLines s t gs) := by
  cases gs with
  | nil => exact nofun
  | cons g gs =>
    intro line hline
    obtain rfl : chomp (hunkHeader g) = line := Option.some.inj hline
    exact startsWith_other (hunkHeader_starts s t g) fun _ => rfl

theorem noHeader_hunk (g : List Opcode) {line : Text} {next : Option Text} :
    ¬HeaderAt [chomp (hunkHeader g)] line next := by
  intro hat
  rcases headerAt_cons.mp hat with ⟨rfl, hs, -⟩ | hat
  · rw [startsWith_other (hunkHeader_starts [] [] g) fun _ => rfl] at hs
    cases hs
  · exact headerAt_nil hat

/-- Below the names of a file, only the lines of hunks can look like headers. -/
theorem body_headers (gs : List (List Opcode)) :
    (Takes (bodyLines s t gs) ↔ ∀ g ∈ gs, Takes (hunkLines s t g)) ∧
      ∀ path, Selected (bodyLines s t gs) path ↔ ∃ g ∈ gs, Selected (hunkLines s t g) path := by
  induction gs with
  | nil =>
    refine ⟨⟨fun _ => nofun, fun _ _ _ hat => absurd hat headerAt_nil⟩, fun path => ⟨?_, ?_⟩⟩
    · rintro ⟨_, _, hat, -⟩
      exact absurd hat headerAt_nil
    · rintro ⟨g, hg, -⟩
      cases hg
  | cons g gs ih =>
    have hlines : bodyLines s t (g :: gs) = [chomp (hunkHeader g)] ++ (hunkLines s t g ++ bodyLines s t gs) := rfl
    have hnil : NoPlus (bodyLines s t gs) := bodyLines_noPlus gs
    have htakes : Takes ([chomp (hunkHeader g)] ++ (hunkLines s t g ++ bodyLines s t gs)) ↔
        Takes (hunkLines s t g ++ bodyLines s t gs) := by
      refine ⟨fun h line next hat => h line next (headerAt_append.mpr (.inr hat)), ?_⟩
      intro h line next hat
      rcases headerAt_append.mp hat with ⟨_, hat, -⟩ | hat
      · exact absurd hat (noHeader_hunk g)
      · exact h line next hat
    have hselected : ∀ path, Selected ([chomp (hunkHeader g)] ++ (hunkLines s t g ++ bodyLines s t gs)) path ↔
        Selected (hunkLines s t g ++ bodyLines s t gs) path := by
      intro path
      constructor
      · rintro ⟨line, next, hat, hpath⟩
        rcases headerAt_append.mp hat with ⟨_, hat, -⟩ | hat
        · exact absurd hat (noHeader_hunk g)
        · exact ⟨line, next, hat, hpath⟩
      · rintro ⟨line, next, hat, hpath⟩
        exact ⟨line, next, headerAt_append.mpr (.inr hat), hpath⟩
    rw [hlines]
    refine ⟨?_, ?_⟩
    · rw [htakes, takes_append hnil, ih.1, List.forall_mem_cons]
    · intro path
      rw [hselected, selected_append hnil, ih.2, List.exists_mem_cons_iff]

/-- The names of a file select its path. -/
theorem selectedPath_header {name : String} {before after : Option Bytes} (h : before ≠ none ∨ after ≠ none) :
    selectedPath (nameHeader "--- " "a/" name before) (nameHeader "+++ " "b/" name after) = name.toList := by
  have hside : ∀ side : String, (startsWith "a/" side.toList || startsWith "b/" side.toList) = true →
      side.toList.length = 2 →
      (if (startsWith "a/" (side.toList ++ name.toList) || startsWith "b/" (side.toList ++ name.toList)) = true
        then (side.toList ++ name.toList).drop 2 else side.toList ++ name.toList) = name.toList := by
    intro side hside htwo
    have hgrow : ∀ front, startsWith front side.toList = true → startsWith front (side.toList ++ name.toList) = true := by
      intro front hfront
      unfold startsWith at hfront ⊢
      rw [List.isPrefixOf_iff_prefix] at hfront ⊢
      exact hfront.trans (List.prefix_append _ _)
    have htrue : (startsWith "a/" (side.toList ++ name.toList) || startsWith "b/" (side.toList ++ name.toList)) = true := by
      rcases Bool.or_eq_true_iff.mp hside with ha | hb
      · rw [hgrow _ ha, Bool.true_or]
      · rw [hgrow _ hb, Bool.or_true]
    rw [if_pos htrue, ← htwo, List.drop_left]
  unfold selectedPath
  cases after with
  | none =>
    cases before with
    | none => exact absurd h (by simp)
    | some old => exact hside "a/" rfl rfl
  | some new =>
    have hother : "b/".toList ++ name.toList ≠ "/dev/null".toList := fun heq => by
      have hchar : 'b' = '/' := (List.cons.inj heq).1
      cases hchar
    have hdrop : (nameHeader "+++ " "b/" name (some new)).drop 4 = "b/".toList ++ name.toList := rfl
    simp only [hdrop, if_pos hother]
    exact hside "b/" rfl rfl

end LilTweak.Evidence
