import LilTweak.Lib.Text

/-!
# Percent-encoding and lossy UTF-8

Percent-decoding of bytes, percent-encoding of a text, and UTF-8 decoding that puts U+FFFD for each
maximal part that is not valid, which is how the URL standard and Python's `replace` both
decode. A text that was percent-encoded can be told from its encoding.
-/

namespace LilTweak.Lib

/-! ## Percent-decoding -/

/-- The value of a hexadecimal digit. -/
def hexValue (b : UInt8) : Option Nat :=
  if 48 ≤ b.toNat ∧ b.toNat ≤ 57 then some (b.toNat - 48)
  else if 65 ≤ b.toNat ∧ b.toNat ≤ 70 then some (b.toNat - 55)
  else if 97 ≤ b.toNat ∧ b.toNat ≤ 102 then some (b.toNat - 87)
  else none

/-- The byte two hexadecimal digits stand for. -/
def hexByte (h l : UInt8) : Option UInt8 := do
  let x ← hexValue h
  let y ← hexValue l
  some (UInt8.ofNat (16 * x + y))

/-- Percent-decode; a `%` that is not followed by two hexadecimal digits stays. -/
def percentDecode : List UInt8 → List UInt8
  | b :: h :: l :: rest =>
    if b = 37 then match hexByte h l with
      | some byte => byte :: percentDecode rest
      | none => b :: percentDecode (h :: l :: rest)
    else b :: percentDecode (h :: l :: rest)
  | bytes => bytes

theorem percentDecode_cons {b : UInt8} (hb : b ≠ 37) (rest : List UInt8) :
    percentDecode (b :: rest) = b :: percentDecode rest := by
  match rest with
  | [] => rfl
  | [_] => rfl
  | h :: l :: rest => rw [percentDecode, if_neg hb]

theorem percentDecode_id {bytes : List UInt8} (h : 37 ∉ bytes) : percentDecode bytes = bytes := by
  induction bytes with
  | nil => rfl
  | cons b rest ih =>
    rw [List.mem_cons, not_or] at h
    rw [percentDecode_cons (Ne.symm h.1), ih h.2]

/-! ## Percent-encoding -/

/-- An upper-case hexadecimal digit. -/
def hexDigit (n : Nat) : Char := if n < 10 then Char.ofNat (48 + n) else Char.ofNat (55 + n)

/-- `%` and two digits. -/
def percentByte (b : UInt8) : List Char := ['%', hexDigit (b.toNat / 16), hexDigit (b.toNat % 16)]

/-- Percent-encode the UTF-8 of a text, but for the characters that are left alone. -/
def percentEncode (keep : Char → Bool) (s : List Char) : List Char :=
  s.flatMap fun c => if keep c then [c] else (String.utf8EncodeChar c).flatMap percentByte

theorem hexDigit_byte (n : Nat) (h : n < 16) :
    (hexDigit n).toNat < 128 ∧ hexValue (UInt8.ofNat (hexDigit n).toNat) = some n := by
  have hall : ∀ n : Fin 16, (hexDigit n).toNat < 128 ∧
      hexValue (UInt8.ofNat (hexDigit n).toNat) = some n.val := by decide
  exact hall ⟨n, h⟩

theorem percentDecode_percentByte (b : UInt8) (rest : List UInt8) :
    percentDecode (encodeUtf8 (percentByte b) ++ rest) = b :: percentDecode rest := by
  have hb := b.toNat_lt
  obtain ⟨hhigh, hx⟩ := hexDigit_byte (b.toNat / 16) (by omega)
  obtain ⟨hlow, hy⟩ := hexDigit_byte (b.toNat % 16) (by omega)
  have hencode : encodeUtf8 (percentByte b) = [37, UInt8.ofNat (hexDigit (b.toNat / 16)).toNat,
      UInt8.ofNat (hexDigit (b.toNat % 16)).toNat] := by
    rw [percentByte, encodeUtf8_ascii (by decide), encodeUtf8_ascii hhigh, encodeUtf8_ascii hlow,
      encodeUtf8_nil]
    rfl
  have hbyte : hexByte (UInt8.ofNat (hexDigit (b.toNat / 16)).toNat)
      (UInt8.ofNat (hexDigit (b.toNat % 16)).toNat) = some b := by
    simp only [hexByte, hx, hy, Option.bind_eq_bind, Option.bind_some]
    rw [Nat.div_add_mod, UInt8.ofNat_toNat]
  rw [hencode]
  simp only [List.cons_append, List.nil_append, percentDecode, hbyte, ↓reduceIte]

/-- What is left alone is ASCII and is not `%`. -/
def KeepsAscii (keep : Char → Bool) : Prop := ∀ c, keep c = true → c.toNat < 128 ∧ c ≠ '%'

theorem percentDecode_encode {keep : Char → Bool} (hkeep : KeepsAscii keep) (s : List Char) :
    percentDecode (encodeUtf8 (percentEncode keep s)) = encodeUtf8 s := by
  have hbytes : ∀ (bytes rest : List UInt8),
      percentDecode (encodeUtf8 (bytes.flatMap percentByte) ++ rest) = bytes ++ percentDecode rest := by
    intro bytes rest
    induction bytes with
    | nil => simp
    | cons b bytes ih =>
      rw [List.flatMap_cons, encodeUtf8_append, List.append_assoc, percentDecode_percentByte, ih,
        List.cons_append]
  induction s with
  | nil => rfl
  | cons c s ih =>
    rw [percentEncode, List.flatMap_cons, encodeUtf8_append, encodeUtf8_cons]
    rw [percentEncode] at ih
    by_cases hc : keep c = true
    · obtain ⟨hascii, hne⟩ := hkeep c hc
      have hbyte : UInt8.ofNat c.toNat ≠ 37 := by
        intro he
        have hval := congrArg UInt8.toNat he
        simp only [UInt8.toNat_ofNat'] at hval
        apply hne
        apply Char.toNat_inj.mp
        rw [Nat.mod_eq_of_lt (by omega)] at hval
        exact hval
      have hone := encodeUtf8_ascii hascii []
      rw [encodeUtf8_cons, encodeUtf8_nil, List.append_nil] at hone
      rw [if_pos hc, encodeUtf8_ascii hascii, encodeUtf8_nil, List.cons_append, List.nil_append,
        percentDecode_cons hbyte, ih, hone]
      rfl
    · rw [if_neg hc, hbytes, ih]

/-- A text can be told from its percent-encoding. -/
theorem percentEncode_injective {keep : Char → Bool} (hkeep : KeepsAscii keep) {s t : List Char}
    (h : percentEncode keep s = percentEncode keep t) : s = t := by
  apply encodeUtf8_injective
  rw [← percentDecode_encode hkeep s, h, percentDecode_encode hkeep t]

/-- What an encoding is made of. -/
theorem mem_percentEncode {keep : Char → Bool} {s : List Char} {c : Char}
    (h : c ∈ percentEncode keep s) : keep c = true ∨ c = '%' ∨ ∃ n, n < 16 ∧ c = hexDigit n := by
  obtain ⟨d, -, hd⟩ := List.mem_flatMap.mp h
  split at hd
  · next hk =>
    obtain rfl := List.mem_singleton.mp hd
    exact .inl hk
  · obtain ⟨b, -, hb⟩ := List.mem_flatMap.mp hd
    have hlt := b.toNat_lt
    simp only [percentByte, List.mem_cons, List.not_mem_nil, or_false] at hb
    rcases hb with hb | hb | hb
    · exact .inr (.inl hb)
    · exact .inr (.inr ⟨_, by omega, hb⟩)
    · exact .inr (.inr ⟨_, by omega, hb⟩)

/-! ## Lossy UTF-8 -/

/-- What is owed of a character: how many bytes, the bounds of the next one, and the code point so
far. -/
structure Utf8State where
  needed : Nat := 0
  lower : Nat := 0x80
  upper : Nat := 0xBF
  point : Nat := 0

/-- The replacement character. -/
def replacement : Char := Char.ofNat 0xFFFD

/-- A byte between characters. -/
def utf8First (b : Nat) : Utf8State × List Char :=
  if b ≤ 0x7F then (⟨0, 0x80, 0xBF, 0⟩, [Char.ofNat b])
  else if 0xC2 ≤ b ∧ b ≤ 0xDF then (⟨1, 0x80, 0xBF, b - 0xC0⟩, [])
  else if 0xE0 ≤ b ∧ b ≤ 0xEF then
    (⟨2, if b = 0xE0 then 0xA0 else 0x80, if b = 0xED then 0x9F else 0xBF, b - 0xE0⟩, [])
  else if 0xF0 ≤ b ∧ b ≤ 0xF4 then
    (⟨3, if b = 0xF0 then 0x90 else 0x80, if b = 0xF4 then 0x8F else 0xBF, b - 0xF0⟩, [])
  else (⟨0, 0x80, 0xBF, 0⟩, [replacement])

/-- One byte. A byte that does not go on with the character begins another one. -/
def Utf8State.step (s : Utf8State) (b : Nat) : Utf8State × List Char :=
  if s.needed = 0 then utf8First b
  else if b < s.lower ∨ s.upper < b then ((utf8First b).1, replacement :: (utf8First b).2)
  else if s.needed = 1 then (⟨0, 0x80, 0xBF, 0⟩, [Char.ofNat (s.point * 64 + (b - 0x80))])
  else (⟨s.needed - 1, 0x80, 0xBF, s.point * 64 + (b - 0x80)⟩, [])

/-- Decode what follows. -/
def Utf8State.decode (s : Utf8State) : List UInt8 → List Char
  | [] => if s.needed = 0 then [] else [replacement]
  | b :: rest => (s.step b.toNat).2 ++ (s.step b.toNat).1.decode rest

/-- Decode UTF-8, with U+FFFD for each maximal part that is not valid. -/
def decodeLossy (bytes : List UInt8) : List Char := Utf8State.decode {} bytes

theorem decodeLossy_ascii {c : Char} (hc : c.toNat < 128) (rest : List UInt8) :
    decodeLossy (UInt8.ofNat c.toNat :: rest) = c :: decodeLossy rest := by
  have hb : (UInt8.ofNat c.toNat).toNat = c.toNat := by
    simp only [UInt8.toNat_ofNat']
    omega
  simp only [decodeLossy, Utf8State.decode, Utf8State.step, hb, utf8First, ↓reduceIte,
    if_pos (show c.toNat ≤ 0x7F by omega), List.cons_append, List.nil_append, Char.ofNat_toNat]

/-- ASCII text is its own decoding. -/
theorem decodeLossy_encodeUtf8 {s : List Char} (h : ∀ c ∈ s, c.toNat < 128) :
    decodeLossy (encodeUtf8 s) = s := by
  induction s with
  | nil => rfl
  | cons c s ih =>
    have hc := h c List.mem_cons_self
    rw [encodeUtf8_ascii hc, decodeLossy_ascii hc, ih fun d hd => h d (List.mem_cons_of_mem c hd)]

end LilTweak.Lib
