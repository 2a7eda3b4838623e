import LilTweak.Lib.Text
import Mathlib

/-!
# Strings with lone surrogates

A Python `str` is a list of code points, in which surrogates may stand alone; it
has a UTF-8 encoding when none does. White space is what `str.isspace` says it
is, and trimming is generic in the predicate.
-/

namespace LilTweak.Lib

/-- A code point, surrogates included. -/
abbrev CodePoint := Fin 0x110000

/-- A Python `str`. -/
abbrev PyStr := List CodePoint

/-- The character of a code point that is not a surrogate. -/
def CodePoint.char? (c : CodePoint) : Option Char :=
  if h : c.val.isValidChar then some (Char.ofNatAux c.val h) else none

/-- The code point of a character. -/
def CodePoint.ofChar (c : Char) : CodePoint :=
  ⟨c.toNat, c.valid.elim (fun h => Nat.lt_trans h (by decide)) fun h => h.2⟩

/-- The text of a `str` without lone surrogates, which `encode("utf-8")` accepts. -/
def PyStr.text? (s : PyStr) : Option String := (s.mapM CodePoint.char?).map String.ofList

/-- The `str` of a text. -/
def PyStr.ofText (s : String) : PyStr := s.toList.map CodePoint.ofChar

theorem CodePoint.char?_ofChar (c : Char) : (CodePoint.ofChar c).char? = some c := by
  have hv : (CodePoint.ofChar c).val.isValidChar := c.valid
  rw [CodePoint.char?, dif_pos hv]
  rfl

@[simp] theorem PyStr.text?_ofText (s : String) : PyStr.text? (PyStr.ofText s) = some s := by
  have h : ∀ l : List Char, (l.map CodePoint.ofChar).mapM CodePoint.char? = some l := by
    intro l
    induction l with
    | nil => rfl
    | cons c l ih => simp [List.mapM_cons, CodePoint.char?_ofChar, ih]
  simp [PyStr.text?, PyStr.ofText, h]

theorem CodePoint.ofChar_injective : Function.Injective CodePoint.ofChar := by
  intro a b h
  have ha := CodePoint.char?_ofChar a
  rw [h, CodePoint.char?_ofChar] at ha
  exact (Option.some.inj ha).symm

theorem CodePoint.ofChar_of_char? {c : CodePoint} {ch : Char} (h : c.char? = some ch) : CodePoint.ofChar ch = c := by
  unfold CodePoint.char? at h
  split at h
  · obtain rfl := Option.some.inj h
    rfl
  · cases h

theorem PyStr.mapM_ofChar (chars : List Char) :
    (chars.map CodePoint.ofChar).mapM CodePoint.char? = some chars := by
  induction chars with
  | nil => rfl
  | cons c chars ih =>
    rw [List.map_cons, List.mapM_cons, CodePoint.char?_ofChar, ih]
    rfl

/-- The characters of a `str` are those whose code points it lists. -/
theorem PyStr.chars_iff {s : PyStr} {chars : List Char} :
    s.mapM CodePoint.char? = some chars ↔ s = chars.map CodePoint.ofChar := by
  constructor
  · intro h
    induction s generalizing chars with
    | nil =>
      obtain rfl := Option.some.inj h
      rfl
    | cons c s ih =>
      rw [List.mapM_cons] at h
      obtain ⟨d, hd, hrest⟩ := Option.bind_eq_some_iff.mp h
      obtain ⟨rest, hs, hcons⟩ := Option.bind_eq_some_iff.mp hrest
      obtain rfl := Option.some.inj hcons
      rw [List.map_cons, CodePoint.ofChar_of_char? hd, ← ih hs]
  · rintro rfl
    exact PyStr.mapM_ofChar chars

/-! ## White space -/

/-- The items between the first and the last one that fail a predicate. -/
def trim {α : Type*} (p : α → Bool) (l : List α) : List α := (l.dropWhile p).rdropWhile p

theorem trim_sublist {α : Type*} (p : α → Bool) (l : List α) : (trim p l).Sublist l :=
  (List.rdropWhile_prefix p _).sublist.trans (List.dropWhile_sublist p)

/-- Trimming leaves nothing exactly of a list that satisfies the predicate throughout. -/
theorem trim_eq_nil {α : Type*} (p : α → Bool) (l : List α) : trim p l = [] ↔ ∀ x ∈ l, p x = true := by
  rw [trim, List.rdropWhile_eq_nil_iff]
  constructor
  · intro h x hx
    by_contra hp
    have hne : l.dropWhile p ≠ [] := fun he => hp (List.dropWhile_eq_nil_iff.mp he x hx)
    have hf := List.head_dropWhile_not p hne
    simp [h _ (List.head_mem hne)] at hf
  · intro h x hx
    exact h x ((List.dropWhile_sublist p).subset hx)

/-- `str.isspace` of one character. -/
def isSpace (c : Char) : Bool :=
  let n := c.toNat
  (9 ≤ n && n ≤ 13) || (28 ≤ n && n ≤ 32) || n = 0x85 || n = 0xA0 || n = 0x1680 ||
    (0x2000 ≤ n && n ≤ 0x200A) || n = 0x2028 || n = 0x2029 || n = 0x202F || n = 0x205F || n = 0x3000

/-- `str.strip()`. -/
def strip (s : String) : String := String.ofList (trim isSpace s.toList)

theorem utf8ByteSize_ofList_cons (c : Char) (l : List Char) :
    (String.ofList (c :: l)).utf8ByteSize = c.utf8Size + (String.ofList l).utf8ByteSize := by
  rw [show c :: l = [c] ++ l from rfl, String.ofList_append, String.utf8ByteSize_append]
  simp

theorem length_le_utf8ByteSize (s : String) : s.length ≤ s.utf8ByteSize := by
  rw [← String.length_toList, ← String.ofList_toList (s := s)]
  generalize s.toList = l
  induction l with
  | nil => simp
  | cons c l ih =>
    have hc := Char.utf8Size_pos c
    simp only [String.toList_ofList, List.length_cons, utf8ByteSize_ofList_cons] at ih ⊢
    omega

theorem length_strip_le (s : String) : (strip s).length ≤ s.length := by
  have h := (trim_sublist isSpace s.toList).length_le
  simpa only [strip, String.length_ofList, String.length_toList] using h

theorem strip_ne_empty {s : String} (h : strip s ≠ "") : 1 ≤ (strip s).length := by
  have hne : (strip s).length ≠ 0 := by simpa using h
  omega

end LilTweak.Lib
