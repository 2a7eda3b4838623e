import LilTweak.Sources.Names
import Mathlib

/-!
# What an accepted path looks like

`validate_portable_path` looks for a drive and for a leading slash in the text it is given, and drops
the `.` components of the path afterwards. What it returns is portable exactly when a component is
left and none of them begins with a drive.
-/

namespace LilTweak.Sources

open LilTweak.Lib

/-! ## Components -/

/-- The text with its backslashes read as slashes. -/
def slashed (raw : String) : List Char := raw.toList.map fun c => if c = '\\' then '/' else c

/-- What stands between the slashes of a path, `.` left out. -/
def components (raw : String) : List String := pathParts (slashed raw)

theorem mem_splitOn {part text : List Char} (h : part ∈ text.splitOn '/') : ∀ c ∈ part, c ∈ text ∧ c ≠ '/' := by
  induction text generalizing part with
  | nil =>
    rw [List.splitOn_nil, List.mem_singleton] at h
    rw [h]
    exact nofun
  | cons first rest ih =>
    rw [List.splitOn_cons_eq_if_modifyHead] at h
    split at h
    · next hslash =>
      rcases List.mem_cons.mp h with rfl | hrest
      · exact nofun
      · intro c hc
        obtain ⟨hmem, hne⟩ := ih hrest c hc
        exact ⟨List.mem_cons_of_mem _ hmem, hne⟩
    · next hslash =>
      obtain ⟨head, tail, hsplit⟩ := List.exists_cons_of_ne_nil (List.splitOn_ne_nil '/' rest)
      rw [hsplit, List.modifyHead_cons] at h
      intro c hc
      rcases List.mem_cons.mp h with rfl | htail
      · rcases List.mem_cons.mp hc with rfl | hhead
        · exact ⟨List.mem_cons_self, by simpa using hslash⟩
        · obtain ⟨hmem, hne⟩ := ih (hsplit ▸ List.mem_cons_self) c hhead
          exact ⟨List.mem_cons_of_mem _ hmem, hne⟩
      · obtain ⟨hmem, hne⟩ := ih (hsplit ▸ List.mem_cons_of_mem _ htail) c hc
        exact ⟨List.mem_cons_of_mem _ hmem, hne⟩

/-- What is left between the slashes names something. -/
structure Component (part : String) : Prop where
  nonempty : part ≠ ""
  named : part ≠ "."
  unslashed : '/' ∉ part.toList

theorem pathParts_component {text : List Char} {part : String} (h : part ∈ pathParts text) :
    Component part ∧ ∀ c ∈ part.toList, c ∈ text := by
  obtain ⟨chars, hchars, rfl⟩ := List.mem_map.mp h
  obtain ⟨hsplit, hkept⟩ := List.mem_filter.mp hchars
  rw [Bool.and_eq_true, decide_eq_true_eq, decide_eq_true_eq] at hkept
  rw [String.toList_ofList]
  have hmem := mem_splitOn hsplit
  refine ⟨⟨?_, ?_, ?_⟩, fun c hc => (hmem c hc).1⟩
  · intro hempty
    apply hkept.1
    rw [← String.toList_ofList (l := chars), hempty]
    rfl
  · intro hdot
    apply hkept.2
    rw [← String.toList_ofList (l := chars), hdot]
    rfl
  · rw [String.toList_ofList]
    exact fun hslash => (hmem '/' hslash).2 rfl

theorem splitOn_join {parts : List String} (hparts : ∀ part ∈ parts, Component part) (hne : parts ≠ []) :
    ("/".intercalate parts).toList.splitOn '/' = parts.map String.toList := by
  rw [String.toList_intercalate]
  apply List.splitOn_intercalate
  · intro chars hchars
    obtain ⟨part, hpart, rfl⟩ := List.mem_map.mp hchars
    exact (hparts part hpart).unslashed
  · simpa using hne

/-- Components joined by slashes are read back. -/
theorem pathParts_join {parts : List String} (hparts : ∀ part ∈ parts, Component part) (hne : parts ≠ []) :
    pathParts ("/".intercalate parts).toList = parts := by
  unfold pathParts
  rw [splitOn_join hparts hne, List.filter_eq_self.mpr, List.map_map]
  · exact List.map_id'' (fun part => String.ofList_toList) parts
  · intro chars hchars
    obtain ⟨part, hpart, rfl⟩ := List.mem_map.mp hchars
    rw [Bool.and_eq_true, decide_eq_true_eq, decide_eq_true_eq]
    constructor
    · intro hempty
      exact (hparts part hpart).nonempty (String.toList_injective hempty)
    · intro hdot
      exact (hparts part hpart).named (String.toList_injective hdot)

/-- Slashes at the end separate nothing. -/
theorem pathParts_rdropWhile (text : List Char) : pathParts (text.rdropWhile (· = '/')) = pathParts text := by
  induction text using List.reverseRecOn with
  | nil => rfl
  | append_singleton text c ih =>
    by_cases hc : c = '/'
    · subst hc
      rw [List.rdropWhile_concat_pos _ _ _ (by simp), ih]
      unfold pathParts
      rw [List.splitOn_append_cons_self, List.splitOn_nil, List.filter_append]
      simp
    · rw [List.rdropWhile_concat_neg _ _ _ (by simpa using hc)]

/-! ## Acceptance -/

section
variable {casefold : String → String} {raw p : String}

/-- What `_safe_name` asks of a text. -/
structure Admitted (casefold : String → String) (raw : String) : Prop where
  plain : ∀ c ∈ raw.toList, 32 ≤ c.toNat ∧ c.toNat ≠ 127
  relative : (slashed raw).head? ≠ some '/'
  undriven : windowsDrive (slashed raw) = false
  nonempty : (slashed raw).rdropWhile (· = '/') ≠ []
  inside : ".." ∉ components raw
  permitted : ∀ part ∈ components raw, part.utf8ByteSize ≤ 255 ∧ blockedSourceComponent casefold part = false
  shallow : (components raw).length ≤ defaultMaxDepth

theorem slashed_begins (h : "\\\\".toList.isPrefixOf raw.toList = true) : (slashed raw).head? = some '/' := by
  rw [List.isPrefixOf_iff_prefix] at h
  obtain ⟨rest, hrest⟩ := h
  rw [slashed, ← hrest]
  rfl

/-- `_safe_name` accepts what is admitted, and returns its components. -/
theorem validatePortablePath_iff :
    validatePortablePath casefold raw = .ok p ↔ Admitted casefold raw ∧ p = asPosix (components raw) := by
  have hparts : pathParts ((slashed raw).rdropWhile (· = '/')) = components raw := pathParts_rdropWhile _
  unfold validatePortablePath safeName
  simp only [show (raw.toList.map fun c => if c = '\\' then '/' else c) = slashed raw from rfl, hparts]
  constructor
  · intro h
    split at h
    · cases h
    next hplain =>
    split at h
    · cases h
    next hstart =>
    split at h
    · cases h
    next hinside =>
    split at h
    · cases h
    next hpermitted =>
    split at h
    · cases h
    next hshallow =>
    rw [not_or] at hplain hinside
    rw [not_or, not_or] at hstart
    have hp := (Except.ok.inj h).symm
    refine ⟨⟨?_, hstart.1, eq_false_of_ne_true hstart.2.2, hinside.1, hinside.2, ?_, Nat.le_of_not_lt hshallow⟩, hp⟩
    · intro c hc
      have hchar := hplain.2
      rw [List.any_eq_true] at hchar
      have hc' : ¬(decide (c.toNat < 32) || decide (c.toNat = 127)) = true := fun h => hchar ⟨c, hc, h⟩
      rw [Bool.or_eq_true, decide_eq_true_eq, decide_eq_true_eq] at hc'
      omega
    · intro part hpart
      rw [List.any_eq_true] at hpermitted
      have hpart' : ¬(decide (255 < part.utf8ByteSize) || blockedSourceComponent casefold part) = true :=
        fun h => hpermitted ⟨part, hpart, h⟩
      rw [Bool.or_eq_true, decide_eq_true_eq, not_or] at hpart'
      exact ⟨Nat.le_of_not_lt hpart'.1, eq_false_of_ne_true hpart'.2⟩
  · intro ⟨h, hp⟩
    rw [if_neg, if_neg, if_neg, if_neg, if_neg (Nat.not_lt.mpr h.shallow), hp]
    · rfl
    · rw [List.any_eq_true]
      intro ⟨part, hpart, hrefused⟩
      obtain ⟨hsize, hblocked⟩ := h.permitted part hpart
      rw [hblocked, Bool.or_false, decide_eq_true_eq] at hrefused
      omega
    · rw [not_or]
      exact ⟨h.nonempty, h.inside⟩
    · rw [not_or, not_or]
      exact ⟨h.relative, fun hback => h.relative (slashed_begins hback), by rw [h.undriven]; decide⟩
    · rw [not_or, List.any_eq_true]
      constructor
      · intro hempty
        apply h.nonempty
        rw [hempty]
        rfl
      · intro ⟨c, hc, hcontrol⟩
        have hplain := h.plain c hc
        rw [Bool.or_eq_true, decide_eq_true_eq, decide_eq_true_eq] at hcontrol
        omega

/-! ## What is returned -/

/-- A path that every later check takes as it is. -/
structure Portable (casefold : String → String) (path : String) : Prop where
  nonempty : path ≠ ""
  relative : path.toList.head? ≠ some '/'
  components : ∀ part ∈ (path.toList.splitOn '/').map String.ofList,
    part ≠ "" ∧ part ≠ "." ∧ part ≠ ".." ∧ blockedSourceComponent casefold part = false ∧
      windowsDrive part.toList = false
  stable : validatePortablePath casefold path = .ok path

theorem slashed_of_mem {c : Char} (h : c ∈ slashed raw) : c ≠ '\\' ∧ (c = '/' ∨ c ∈ raw.toList) := by
  obtain ⟨d, hd, rfl⟩ := List.mem_map.mp h
  split
  · exact ⟨by decide, Or.inl rfl⟩
  · next hback => exact ⟨hback, Or.inr hd⟩

theorem slashed_eq_self (h : '\\' ∉ p.toList) : slashed p = p.toList := by
  unfold slashed
  conv_rhs => rw [← List.map_id p.toList]
  apply List.map_congr_left
  intro c hc
  rw [if_neg]
  · rfl
  · rintro rfl
    exact h hc

/-- Joined components consist of their characters and of slashes. -/
theorem mem_join {parts : List String} {c : Char} (h : c ∈ ("/".intercalate parts).toList) :
    c = '/' ∨ ∃ part ∈ parts, c ∈ part.toList := by
  rw [String.toList_intercalate] at h
  induction parts with
  | nil => cases h
  | cons first rest ih =>
    cases rest with
    | nil =>
      rw [List.map_singleton, List.intercalate_singleton] at h
      exact Or.inr ⟨first, List.mem_singleton_self _, h⟩
    | cons second rest =>
      rw [List.map_cons, List.map_cons, List.intercalate_cons_cons, List.mem_append, List.mem_append] at h
      rcases h with (hfirst | hslash) | hrest
      · exact Or.inr ⟨first, List.mem_cons_self, hfirst⟩
      · exact Or.inl (List.mem_singleton.mp hslash)
      · rcases ih (by rwa [List.map_cons]) with hslash | ⟨part, hpart, hc⟩
        · exact Or.inl hslash
        · exact Or.inr ⟨part, List.mem_cons_of_mem _ hpart, hc⟩

/-- A joined path begins with its first component, and a slash follows where more does. -/
theorem join_cons (part : String) (parts : List String) :
    ∃ tail, ("/".intercalate (part :: parts)).toList = part.toList ++ tail ∧ (tail = [] ∨ tail.head? = some '/') := by
  rw [String.toList_intercalate]
  cases parts with
  | nil => exact ⟨[], by simp, Or.inl rfl⟩
  | cons second rest =>
    rw [List.map_cons, List.map_cons, List.intercalate_cons_cons, List.append_assoc]
    exact ⟨_, rfl, Or.inr rfl⟩

theorem windowsDrive_cons (c d : Char) (more : List Char) :
    windowsDrive (c :: d :: more) = (decide (d = ':') && c.isAlpha) := by
  by_cases hcolon : d = ':'
  · subst hcolon
    rfl
  · rw [decide_eq_false hcolon, Bool.false_and]
    unfold windowsDrive
    split
    · next heq => exact absurd (List.cons.inj (List.cons.inj heq).2).1 hcolon
    · rfl

/-- A component that begins no drive begins no path with a drive. -/
theorem windowsDrive_join {part : String} {parts : List String} (hpart : Component part)
    (h : windowsDrive part.toList = false) : windowsDrive ("/".intercalate (part :: parts)).toList = false := by
  obtain ⟨tail, hjoin, htail⟩ := join_cons part parts
  rw [hjoin]
  match hchars : part.toList with
  | [] => exact absurd (String.toList_injective hchars) hpart.nonempty
  | [c] =>
    rcases htail with rfl | hslash
    · rfl
    · obtain ⟨more, rfl⟩ := List.head?_eq_some_iff.mp hslash
      rfl
  | c :: d :: more =>
    rw [hchars, windowsDrive_cons] at h
    exact (windowsDrive_cons c d _).trans h

theorem components_component {part : String} (h : part ∈ components raw) :
    Component part ∧ ∀ c ∈ part.toList, c ≠ '\\' ∧ (c = '/' ∨ c ∈ raw.toList) := by
  obtain ⟨hpart, hmem⟩ := pathParts_component h
  exact ⟨hpart, fun c hc => slashed_of_mem (hmem c hc)⟩

/-- Components without drives are admitted when they are joined. -/
theorem Admitted.join (h : Admitted casefold raw) (hne : components raw ≠ [])
    (hdrive : ∀ part ∈ components raw, windowsDrive part.toList = false) :
    Admitted casefold ("/".intercalate (components raw)) ∧
      components ("/".intercalate (components raw)) = components raw := by
  have hparts : ∀ part ∈ components raw, Component part := fun part hpart => (components_component hpart).1
  have hchars : ∀ c ∈ ("/".intercalate (components raw)).toList, c ≠ '\\' ∧ (c = '/' ∨ c ∈ raw.toList) := by
    intro c hc
    rcases mem_join hc with rfl | ⟨part, hpart, hmem⟩
    · exact ⟨by decide, Or.inl rfl⟩
    · exact (components_component hpart).2 c hmem
  have hslashed : slashed ("/".intercalate (components raw)) = ("/".intercalate (components raw)).toList :=
    slashed_eq_self fun hback => (hchars _ hback).1 rfl
  have hsame : components ("/".intercalate (components raw)) = components raw := by
    rw [components, hslashed, pathParts_join hparts hne]
  obtain ⟨first, rest, hcons⟩ := List.exists_cons_of_ne_nil hne
  have hfirst : Component first := hparts first (hcons ▸ List.mem_cons_self)
  have hfirstDrive := hdrive first (hcons ▸ List.mem_cons_self)
  refine ⟨?_, hsame⟩
  constructor
  · intro c hc
    rcases (hchars c hc).2 with rfl | hraw
    · decide
    · exact h.plain c hraw
  · rw [hslashed, hcons]
    obtain ⟨tail, hjoin, _⟩ := join_cons first rest
    rw [hjoin, List.head?_append_of_ne_nil _ fun hnil => hfirst.nonempty (String.toList_injective hnil)]
    intro hhead
    exact hfirst.unslashed (List.mem_of_head? hhead)
  · rw [hslashed, hcons]
    exact windowsDrive_join hfirst hfirstDrive
  · intro hnil
    have hnone := pathParts_rdropWhile (slashed ("/".intercalate (components raw)))
    rw [hnil] at hnone
    apply hne
    rw [← hsame, components, ← hnone]
    rfl
  · rw [hsame]
    exact h.inside
  · rw [hsame]
    exact h.permitted
  · rw [hsame]
    exact h.shallow

/-- What is returned is portable exactly when a component is left and none begins with a drive. -/
theorem portable_iff (h : validatePortablePath casefold raw = .ok p) :
    Portable casefold p ↔ components raw ≠ [] ∧ ∀ part ∈ components raw, windowsDrive part.toList = false := by
  obtain ⟨hadmitted, rfl⟩ := validatePortablePath_iff.mp h
  have hparts : ∀ part ∈ components raw, Component part := fun part hpart => (components_component hpart).1
  by_cases hne : components raw = []
  · rw [asPosix, if_pos hne]
    constructor
    · intro hport
      exact absurd rfl (hport.components "." (by decide)).2.1
    · intro hsome
      exact absurd hne hsome.1
  · rw [asPosix, if_neg hne]
    have hsplit : (("/".intercalate (components raw)).toList.splitOn '/').map String.ofList = components raw := by
      rw [splitOn_join hparts hne, List.map_map]
      exact List.map_id'' (fun part => String.ofList_toList) _
    constructor
    · intro hport
      refine ⟨hne, ?_⟩
      intro part hpart
      rw [← hsplit] at hpart
      exact (hport.components part hpart).2.2.2.2
    · intro hdrive
      obtain ⟨hjoined, hsame⟩ := hadmitted.join hne hdrive.2
      refine ⟨?_, ?_, ?_, ?_⟩
      · intro hempty
        apply hjoined.nonempty
        rw [hempty]
        rfl
      · have hrelative := hjoined.relative
        rwa [slashed_eq_self] at hrelative
        intro hback
        rcases mem_join hback with hslash | ⟨part, hpart, hmem⟩
        · cases hslash
        · exact ((components_component hpart).2 _ hmem).1 rfl
      · rw [hsplit]
        intro part hpart
        refine ⟨(hparts part hpart).nonempty, (hparts part hpart).named, ?_,
          (hadmitted.permitted part hpart).2, hdrive.2 part hpart⟩
        rintro rfl
        exact hadmitted.inside hpart
      · rw [validatePortablePath_iff, hsame, asPosix, if_neg hne]
        exact ⟨hjoined, rfl⟩

end

/-- `src/./main.py` comes back as a portable path. -/
theorem portable_iff_main : Portable id "src/main.py" ↔
    components "src/./main.py" ≠ [] ∧ ∀ part ∈ components "src/./main.py", windowsDrive part.toList = false :=
  portable_iff (by decide +kernel)

/-- The drive in `./C:/x` is uncovered when the `.` before it is dropped. -/
theorem uncovered_drive : ¬∀ (casefold : String → String) (raw p : String),
    validatePortablePath casefold raw = .ok p → Portable casefold p := by
  intro h
  have hstable := (h id "./C:/x" "C:/x" (by decide +kernel)).stable
  exact absurd hstable (by decide +kernel)

end LilTweak.Sources
