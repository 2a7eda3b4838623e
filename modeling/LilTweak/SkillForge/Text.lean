import LilTweak.Lib.Outcome
import LilTweak.Lib.PyJsonText
import LilTweak.Lib.Regex
import Mathlib

/-!
# Texts of a skill

Every text of a draft, a package or a test case passes `text`: it is bounded, holds no control
character, has an encoding, and holds nothing that looks like a secret or an attack. Names, versions,
identifiers and paths are texts of a shape of their own.
-/

namespace LilTweak.SkillForge

open LilTweak.Lib

/-- What the package raises: a `ForgeError` with its code, or an exception of Python. -/
inductive Fault where
  | forge (code : String)
  | python (kind : String)
deriving DecidableEq

/-! ## What is scanned for -/

/-- The code of a character as case-insensitive patterns see it: four characters beyond ASCII match a letter. -/
def folded (c : Char) : ℕ :=
  let n := c.toNat
  if Nat.ble 65 n && Nat.ble n 90 then n + 32
  else if n == 0x130 || n == 0x131 then 105
  else if n == 0x17F then 115
  else if n == 0x212A then 107
  else n

def letter (c : Char) : Bool := Nat.ble 97 (folded c) && Nat.ble (folded c) 122

/-- `[A-Z0-9]` and some more characters. -/
def wordOr (more : List Char) (c : Char) : Bool :=
  letter c || (Nat.ble 48 c.toNat && Nat.ble c.toNat 57) || more.contains c

/-- A text as it is written. -/
def literal (word : String) : Pattern := .all (word.toList.map fun c => .one fun d => folded d == c.toNat)

/-- `\s*`. -/
def spaces : Pattern := .run isSpace 0 none

/-- `\s+`. -/
def gap : Pattern := .run isSpace 1 none

/-- `\S+`. -/
def solid : Pattern := .run (fun c => !isSpace c) 1 none

/-- `[_-]?`. -/
def joint : Pattern := .run (fun c => c = '_' || c = '-') 0 (some 1)

/-- `(?:word\s+)?`. -/
def perhaps (word : String) : Pattern := .optional (.seq (literal word) gap)

/-- `_SENSITIVE`. -/
def sensitivePatterns : List Pattern.Guarded :=
  [.free (.all [literal "sk-", .optional (literal "proj-"), .run (wordOr ['_', '-']) 20 none]),
    .free (.all [literal "gh", .one (fun c => ['p', 'o', 'u', 's', 'r'].any fun d => folded c == d.toNat), literal "_",
      .run (wordOr ['_']) 20 none]),
    .free (.all [literal "github_pat_", .run (wordOr ['_']) 20 none]),
    .free (.all [literal "akia", .run (wordOr []) 16 (some 16)]),
    .free (.all [literal "-----begin ", .optional (.seq (.run (fun c => letter c || c = ' ') 1 none) (literal " ")),
      literal "private key-----"]),
    ⟨wordOr ['.', '_', '%', '+', '-'], .all [.run (wordOr ['.', '_', '%', '+', '-']) 1 (some 64), literal "@",
      .run (wordOr ['.', '-']) 1 (some 253), literal ".", .run letter 2 (some 63)]⟩,
    .free (.any (literal "/home/") [literal "/users/", .seq (.one letter) (literal ":\\users\\")]),
    .free (.all [literal "authorization", spaces, literal ":", spaces, literal "bearer", gap, solid]),
    .free (.all [.any (literal "password") [.all [literal "api", joint, literal "key"],
        .all [literal "access", joint, literal "token"], .all [literal "client", joint, literal "secret"]],
      spaces, .one (fun c => c = '=' || c = ':'), spaces, solid]),
    .free (.all [literal "http", .run (fun c => folded c == 's'.toNat) 0 (some 1), literal "://",
      .run (fun c => !(c = '/' || isSpace c)) 1 (some 256), literal ":",
      .run (fun c => !(c = '/' || isSpace c)) 1 (some 256), literal "@"]),
    .free (.all [literal "ignore", gap, perhaps "all", literal "previous", gap, literal "instructions"]),
    .free (.all [literal "bypass", gap, perhaps "the", literal "approval"]),
    .free (.all [literal "reveal", gap, perhaps "the", literal "system", gap, literal "prompt"]),
    .free (.all [literal "disable", gap, perhaps "the", literal "safety"])]

/-- `_SENSITIVE.search(value)`. -/
def sensitive (value : List Char) : Bool := Pattern.search sensitivePatterns none value

/-! ## Texts -/

/-- `str.isspace` of a code point. -/
def codeSpace (c : CodePoint) : Bool := c.char?.any isSpace

/-- A control character other than a tabulator or a line end. -/
def control (c : CodePoint) : Bool := c.val < 32 && !(c.val = 10 || c.val = 9 || c.val = 13)

/-- A character that changes the direction of the text behind it. -/
def bidirectional (c : CodePoint) : Bool :=
  [0x202A, 0x202B, 0x202D, 0x202E, 0x2066, 0x2067, 0x2068, 0x2069].contains c.val

/-- `value.replace("\r\n", "\n")`. -/
def normalized : List Char → List Char
  | [] => []
  | c :: rest => if c = '\r' ∧ rest.head? = some '\n' then normalized rest else c :: normalized rest

/-- `text(value, limit, scan=scan)`. -/
def text (limit : ℕ) (scan : Bool) : PyJson → Except Fault (List Char)
  | .str s =>
    if s.all codeSpace = true ∨ limit < s.length then .error (.forge "invalid_text")
    else if s.any control then .error (.forge "control_character")
    else if s.any bidirectional then .error (.forge "control_character")
    else
      match s.mapM CodePoint.char? with
      | none => .error (.forge "invalid_utf8")
      | some chars =>
        if scan = true ∧ sensitive chars = true then .error (.forge "sensitive_or_unsafe_content")
        else .ok (normalized chars)
  | _ => .error (.forge "invalid_text")

/-- The value of a text. -/
def strOf (chars : List Char) : PyJson := .str (chars.map CodePoint.ofChar)

/-! ## Shapes -/

/-- `[A-Za-z0-9_.:-]`. -/
def nameChar (c : Char) : Bool := c.isAlphanum || c = '_' || c = '.' || c = ':' || c = '-'

/-- `[A-Za-z0-9][A-Za-z0-9_.:-]{0,127}`. -/
def identifierShape (s : List Char) : Bool :=
  s.head?.any Char.isAlphanum && s.tail.all nameChar && s.length ≤ 128

def identifier (value : PyJson) : Except Fault (List Char) := do
  let checked ← text 128 false value
  if identifierShape checked then .ok checked else .error (.forge "invalid_identifier")

/-- `[a-f0-9]{64}`. -/
def digestShape (s : List Char) : Bool := s.length = 64 && s.all fun c => ('a' ≤ c && c ≤ 'f') || c.isDigit

def digestValue : PyJson → Except Fault (List Char)
  | .str s =>
    match s.mapM CodePoint.char? with
    | some chars => if digestShape chars then .ok chars else .error (.forge "invalid_digest")
    | none => .error (.forge "invalid_digest")
  | _ => .error (.forge "invalid_digest")

/-- `_RESERVED`. -/
def reserved : List String :=
  ["con", "prn", "aux", "nul", "id_rsa", "id_ed25519", "com1", "com2", "com3", "com4", "com5", "com6", "com7", "com8",
    "com9", "lpt1", "lpt2", "lpt3", "lpt4", "lpt5", "lpt6", "lpt7", "lpt8", "lpt9"]

/-- `[a-z0-9]+(?:-[a-z0-9]+)*`. -/
def skillNameShape (s : List Char) : Bool :=
  (s.splitOn '-').all fun part => part ≠ [] && part.all fun c => ('a' ≤ c && c ≤ 'z') || c.isDigit

/-- `_name`. -/
def skillName (value : PyJson) : Except Fault (List Char) := do
  let checked ← text 64 true value
  if skillNameShape checked = false ∨ String.ofList checked ∈ reserved then .error (.forge "invalid_skill_name")
  else .ok checked

/-- `0|[1-9][0-9]*`. -/
def versionNumber (s : List Char) : Bool := s = ['0'] || (s ≠ [] && s.head? ≠ some '0' && s.all Char.isDigit)

/-- `_version`. -/
def skillVersion (value : PyJson) : Except Fault (List Char) := do
  let checked ← text 32 true value
  if (checked.splitOn '.').length = 3 ∧ (checked.splitOn '.').all versionNumber = true then .ok checked
  else .error (.forge "invalid_version")

/-- `_strings`. -/
def strings (maximum : ℕ) : PyJson → Except Fault (List (List Char))
  | .arr items =>
    if items = [] ∨ maximum < items.length then .error (.forge "invalid_list")
    else do
      let result ← items.mapM (text 4096 true)
      if result.Nodup then .ok result else .error (.forge "duplicate_item")
  | _ => .error (.forge "invalid_list")

/-- `[A-Za-z][A-Za-z0-9_.:-]{0,47}`. -/
def requirementShape (s : List Char) : Bool :=
  s.head?.any Char.isAlpha && s.tail.all nameChar && s.length ≤ 48

/-! ## Paths -/

/-- `str.lower()` and `str.casefold()` of an ASCII text. -/
def lower (s : List Char) : List Char := s.map Char.toLower

/-- `part.split(".")[0].lower() in _RESERVED`. -/
def reservedPart (part : List Char) : Bool := String.ofList (lower (part.takeWhile (· ≠ '.'))) ∈ reserved

/-- `[A-Za-z0-9][A-Za-z0-9_.-]*`, without a dot at its end and not reserved. -/
def safePart (part : List Char) : Bool :=
  part.head?.any Char.isAlphanum && part.tail.all (fun c => c.isAlphanum || c = '_' || c = '.' || c = '-') &&
    part.getLast? ≠ some '.' && !reservedPart part

/-- The files the compiler makes. -/
def generated : List String := ["SKILL.md", "manifest.json", "evidence.json", "tests/examples.json"]

/-- The directories of resources. -/
def roots : List String := ["scripts", "references", "assets"]

/-- `_path(value, resource=resource)`. -/
def checkedPath (resource : Bool) (value : PyJson) : Except Fault (List Char) := do
  let checked ← text 180 true value
  let parts := checked.splitOn '/'
  if 4 < parts.length ∨ parts.all safePart = false then .error (.forge "unsafe_path")
  else if String.ofList checked ∉ generated ∨ resource = true then
    if parts.length < 2 ∨ String.ofList (parts.headD []) ∉ roots then .error (.forge "unsafe_path")
    else .ok checked
  else .ok checked

/-! ## What is accepted -/

/-- A text that `text` accepts, before its line ends are normalized. -/
structure Accepted (limit : ℕ) (scan : Bool) (chars : List Char) : Prop where
  nonblank : ∃ c ∈ chars, isSpace c = false
  short : chars.length ≤ limit
  uncontrolled : ∀ c ∈ chars, control (.ofChar c) = false ∧ bidirectional (.ofChar c) = false
  unscanned : scan = true → sensitive chars = false

variable {limit : ℕ} {scan : Bool} {value : PyJson} {chars t : List Char}

theorem codeSpace_ofChar (c : Char) : codeSpace (.ofChar c) = isSpace c := by
  rw [codeSpace, CodePoint.char?_ofChar, Option.any_some]

theorem text_strOf (chars : List Char) :
    text limit scan (strOf chars) =
      if chars.all isSpace = true ∨ limit < chars.length then .error (.forge "invalid_text")
      else if chars.any (fun c => control (.ofChar c)) then .error (.forge "control_character")
      else if chars.any (fun c => bidirectional (.ofChar c)) then .error (.forge "control_character")
      else if scan = true ∧ sensitive chars = true then .error (.forge "sensitive_or_unsafe_content")
      else .ok (normalized chars) := by
  unfold text strOf
  have hspace : (codeSpace ∘ CodePoint.ofChar) = isSpace := funext codeSpace_ofChar
  simp only [List.all_map, List.any_map, List.length_map, hspace, PyStr.mapM_ofChar]
  rfl

theorem of_not_any {α : Type*} {l : List α} {p : α → Bool} (h : ¬l.any p = true) : ∀ c ∈ l, p c = false := by
  intro c hc
  exact Bool.eq_false_of_not_eq_true fun hp => h (List.any_eq_true.mpr ⟨c, hc, hp⟩)

/-- What `text` accepts, and what it returns. -/
theorem text_ok_iff : text limit scan value = .ok t ↔
    ∃ chars, value = strOf chars ∧ Accepted limit scan chars ∧ t = normalized chars := by
  constructor
  · intro h
    have hvalue : ∃ chars, value = strOf chars := by
      cases value with
      | str s =>
        unfold text at h
        obtain ⟨_, h⟩ := unless_ok h
        obtain ⟨_, h⟩ := unless_ok h
        obtain ⟨_, h⟩ := unless_ok h
        cases hs : s.mapM CodePoint.char? with
        | none =>
          rw [hs] at h
          cases h
        | some chars => exact ⟨chars, congrArg PyJson.str (PyStr.chars_iff.mp hs)⟩
      | null | bool _ | int _ | float _ | arr _ | obj _ => cases h
    obtain ⟨chars, rfl⟩ := hvalue
    rw [text_strOf] at h
    obtain ⟨hblank, h⟩ := unless_ok h
    obtain ⟨hcontrol, h⟩ := unless_ok h
    obtain ⟨hbidi, h⟩ := unless_ok h
    obtain ⟨hscan, h⟩ := unless_ok h
    rw [not_or, Nat.not_lt] at hblank
    refine ⟨chars, rfl, ⟨?_, hblank.2, ?_, ?_⟩, (Except.ok.inj h).symm⟩
    · by_contra hnone
      push Not at hnone
      exact hblank.1 (List.all_eq_true.mpr fun c hc => Bool.eq_true_of_not_eq_false (hnone c hc))
    · intro c hc
      exact ⟨of_not_any hcontrol c hc, of_not_any hbidi c hc⟩
    · intro hon
      exact Bool.eq_false_of_not_eq_true fun hsensitive => hscan ⟨hon, hsensitive⟩
  · rintro ⟨chars, rfl, haccepted, rfl⟩
    rw [text_strOf, if_neg, if_neg, if_neg, if_neg]
    · rintro ⟨hon, hsensitive⟩
      rw [haccepted.unscanned hon] at hsensitive
      cases hsensitive
    · intro hany
      obtain ⟨c, hc, hbidi⟩ := List.any_eq_true.mp hany
      rw [(haccepted.uncontrolled c hc).2] at hbidi
      cases hbidi
    · intro hany
      obtain ⟨c, hc, hcontrol⟩ := List.any_eq_true.mp hany
      rw [(haccepted.uncontrolled c hc).1] at hcontrol
      cases hcontrol
    · rintro (hblank | hlong)
      · obtain ⟨c, hc, hsolid⟩ := haccepted.nonblank
        rw [List.all_eq_true.mp hblank c hc] at hsolid
        cases hsolid
      · exact absurd haccepted.short (Nat.not_le.mpr hlong)

/-! ### Line ends -/

theorem normalized_cons (c : Char) (rest : List Char) :
    normalized (c :: rest) = if c = '\r' ∧ rest.head? = some '\n' then normalized rest else c :: normalized rest := rfl

theorem head?_normalized (s : List Char) (h : s.head? = some '\n') : (normalized s).head? = some '\n' := by
  cases s with
  | nil => cases h
  | cons c rest =>
    obtain rfl := Option.some.inj h
    rw [normalized_cons, if_neg fun hreturn => absurd hreturn.1 (by decide)]
    rfl

/-- Without a line feed nothing is normalized. -/
theorem normalized_of_unfed (h : '\n' ∉ normalized chars) : normalized chars = chars := by
  induction chars with
  | nil => rfl
  | cons c rest ih =>
    rw [normalized_cons] at h ⊢
    split at h
    · next hbreak => exact absurd (List.mem_of_head? (head?_normalized rest hbreak.2)) h
    · next hkeep =>
      rw [if_neg hkeep, ih fun hfeed => h (List.mem_cons_of_mem _ hfeed)]

/-- A text of a shape without line feeds is accepted as it stands. -/
theorem text_ok_unfed (h : text limit scan value = .ok t) (hunfed : '\n' ∉ t) :
    value = strOf t ∧ Accepted limit scan t := by
  obtain ⟨chars, hvalue, haccepted, rfl⟩ := text_ok_iff.mp h
  rw [normalized_of_unfed hunfed]
  exact ⟨hvalue, haccepted⟩

/-! ### Paths -/

/-- A character of a text is a separator or in a part. -/
theorem mem_parts {sep c : Char} {s : List Char} (h : c ∈ s) : c = sep ∨ ∃ part ∈ s.splitOn sep, c ∈ part := by
  induction s with
  | nil => cases h
  | cons first rest ih =>
    rw [List.splitOn_cons_eq_if_modifyHead]
    by_cases hsep : first = sep
    · rw [if_pos (by rw [hsep, beq_self_eq_true])]
      rcases List.mem_cons.mp h with rfl | hrest
      · exact .inl hsep
      · exact (ih hrest).imp_right fun ⟨part, hpart, hc⟩ => ⟨part, List.mem_cons_of_mem _ hpart, hc⟩
    · rw [if_neg (by rw [beq_iff_eq]; exact hsep)]
      obtain ⟨head, tail, hsplit⟩ := List.exists_cons_of_ne_nil (List.splitOn_ne_nil sep rest)
      rw [hsplit] at ih ⊢
      rcases List.mem_cons.mp h with rfl | hrest
      · exact .inr ⟨c :: head, List.mem_cons_self, List.mem_cons_self⟩
      · rcases ih hrest with hc | ⟨part, hpart, hc⟩
        · exact .inl hc
        · rcases List.mem_cons.mp hpart with rfl | htail
          · exact .inr ⟨first :: part, List.mem_cons_self, List.mem_cons_of_mem _ hc⟩
          · exact .inr ⟨part, List.mem_cons_of_mem _ htail, hc⟩

/-- The characters of a part of a path. -/
def partChar (c : Char) : Bool := c.isAlphanum || c = '_' || c = '.' || c = '-'

theorem safePart_iff {part : List Char} : safePart part = true ↔
    part.head?.any Char.isAlphanum = true ∧ part.tail.all partChar = true ∧ part.getLast? ≠ some '.' ∧
      reservedPart part = false := by
  unfold safePart
  rw [Bool.and_eq_true, Bool.and_eq_true, Bool.and_eq_true, decide_eq_true_eq, Bool.not_eq_true', and_assoc, and_assoc]
  rfl

theorem safePart_chars {part : List Char} (h : safePart part = true) : ∀ c ∈ part, partChar c = true := by
  obtain ⟨hhead, htail, _, _⟩ := safePart_iff.mp h
  intro c hc
  cases part with
  | nil => cases hc
  | cons first rest =>
    rcases List.mem_cons.mp hc with rfl | hrest
    · unfold partChar
      rw [show c.isAlphanum = true from hhead]
      rfl
    · exact List.all_eq_true.mp htail c hrest

theorem safePart_head {part : List Char} (h : safePart part = true) :
    ∃ first rest, part = first :: rest ∧ first.isAlphanum = true := by
  obtain ⟨hhead, _, _, _⟩ := safePart_iff.mp h
  cases part with
  | nil => cases hhead
  | cons first rest => exact ⟨first, rest, rfl, hhead⟩

/-- The parts of a path are safe, and it is a generated file or stands below a directory of resources. -/
structure SafePath (path : List Char) : Prop where
  parts : ∀ part ∈ path.splitOn '/', safePart part = true
  few : (path.splitOn '/').length ≤ 4
  placed : String.ofList path ∈ generated ∨
    2 ≤ (path.splitOn '/').length ∧ String.ofList ((path.splitOn '/').headD []) ∈ roots

theorem SafePath.legible {path : List Char} (h : SafePath path) : ∀ c ∈ path, c = '/' ∨ partChar c = true := by
  intro c hc
  rcases mem_parts hc with hslash | ⟨part, hpart, hmem⟩
  · exact .inl hslash
  · exact .inr (safePart_chars (h.parts part hpart) c hmem)

theorem SafePath.unfed {path : List Char} (h : SafePath path) : '\n' ∉ path := by
  intro hfeed
  rcases h.legible '\n' hfeed with hslash | hpart
  · cases hslash
  · cases hpart

/-- What `_path` accepts is the text of a safe path. -/
theorem checkedPath_ok {resource : Bool} {path : List Char} (h : checkedPath resource value = .ok path) :
    value = strOf path ∧ Accepted 180 true path ∧ SafePath path ∧
      (resource = true → 2 ≤ (path.splitOn '/').length ∧ String.ofList ((path.splitOn '/').headD []) ∈ roots) := by
  unfold checkedPath at h
  obtain ⟨checked, htext, h⟩ := of_bind_ok h
  obtain ⟨hparts, h⟩ := unless_ok h
  rw [not_or, Nat.not_lt, Bool.not_eq_false, List.all_eq_true] at hparts
  have hplaced : checked = path ∧ (String.ofList path ∈ generated ∨
      2 ≤ (path.splitOn '/').length ∧ String.ofList ((path.splitOn '/').headD []) ∈ roots) ∧
      (resource = true → 2 ≤ (path.splitOn '/').length ∧ String.ofList ((path.splitOn '/').headD []) ∈ roots) := by
    split at h
    · obtain ⟨hroot, h⟩ := unless_ok h
      obtain rfl := Except.ok.inj h
      rw [not_or, Nat.not_lt, not_not] at hroot
      exact ⟨rfl, .inr hroot, fun _ => hroot⟩
    · next hmade =>
      obtain rfl := Except.ok.inj h
      rw [not_or, not_not] at hmade
      exact ⟨rfl, .inl hmade.1, fun hresource => absurd hresource hmade.2⟩
  obtain ⟨rfl, hplace, hresource⟩ := hplaced
  have hsafe : SafePath checked := ⟨hparts.2, hparts.1, hplace⟩
  obtain ⟨hvalue, haccepted⟩ := text_ok_unfed htext hsafe.unfed
  exact ⟨hvalue, haccepted, hsafe, hresource⟩

end LilTweak.SkillForge
