import LilTweak.Lib.Unicode
import Mathlib

/-!
# JSON texts of Python values

What `json.dumps` writes with `ensure_ascii` and compact separators, and what `json.loads` reads: a
text is a list of characters, a string a list of code points. Every string is read back but one in
which a high surrogate stands before a low one: the two escapes are read as one character.
-/

namespace LilTweak.Lib

/-- A value `json.loads` can return; a float is kept as its literal. -/
inductive PyJson where
  | null
  | bool (b : Bool)
  | int (i : Int)
  | float (literal : List Char)
  | str (s : PyStr)
  | arr (items : List PyJson)
  | obj (fields : List (PyStr × PyJson))

namespace PyJson

/-! ## Strings -/

def highSurrogate (n : Nat) : Bool := 0xD800 ≤ n && n ≤ 0xDBFF

def lowSurrogate (n : Nat) : Bool := 0xDC00 ≤ n && n ≤ 0xDFFF

/-- The character that escapes a code with a short escape. -/
def shortEscape (n : Nat) : Option Char :=
  if n = 0x22 then some '"' else if n = 0x5C then some '\\' else if n = 0x0A then some 'n'
  else if n = 0x0D then some 'r' else if n = 0x09 then some 't' else if n = 0x0C then some 'f'
  else if n = 0x08 then some 'b' else none

/-- Four hexadecimal digits. -/
def hex4 (n : Nat) : List Char :=
  [Nat.digitChar (n / 4096 % 16), Nat.digitChar (n / 256 % 16), Nat.digitChar (n / 16 % 16), Nat.digitChar (n % 16)]

/-- What stands for one code point between the quotes. -/
def escapeCode (c : CodePoint) : List Char :=
  match shortEscape c.val with
  | some e => ['\\', e]
  | none =>
    if 0x20 ≤ c.val ∧ c.val ≤ 0x7E then [Char.ofNat c.val]
    else if c.val < 0x10000 then '\\' :: 'u' :: hex4 c.val
    else
      '\\' :: 'u' :: hex4 (0xD800 + (c.val - 0x10000) / 0x400) ++
        '\\' :: 'u' :: hex4 (0xDC00 + (c.val - 0x10000) % 0x400)

/-- A string in quotes. -/
def quoted (s : PyStr) : List Char := '"' :: (s.flatMap escapeCode ++ ['"'])

/-- What one escape or character of a string literal says. -/
inductive Piece where
  | code (c : CodePoint)
  | unit (n : Fin 0x10000)

/-- The value of a hexadecimal digit of either case. -/
def hexValue (c : Char) : Option Nat :=
  if c.isDigit then some (c.toNat - 48)
  else if 'a' ≤ c ∧ c ≤ 'f' then some (c.toNat - 87)
  else if 'A' ≤ c ∧ c ≤ 'F' then some (c.toNat - 55)
  else none

/-- The value of four hexadecimal digits. -/
def readHex4 (a b c d : Char) : Option (Fin 0x10000) :=
  match hexValue a, hexValue b, hexValue c, hexValue d with
  | some i, some j, some k, some l =>
    some (Fin.ofNat 0x10000 (4096 * i + 256 * j + 16 * k + l))
  | _, _, _, _ => none

/-- The code of a short escape. -/
def unescape (e : Char) : Option CodePoint :=
  if e = '"' then some 0x22 else if e = '\\' then some 0x5C else if e = '/' then some 0x2F
  else if e = 'b' then some 0x08 else if e = 'f' then some 0x0C else if e = 'n' then some 0x0A
  else if e = 'r' then some 0x0D else if e = 't' then some 0x09 else none

/-- The pieces up to the closing quote, and what follows it. -/
def scanString : List Char → Option (List Piece × List Char)
  | [] => none
  | c :: rest =>
    if c = '"' then some ([], rest)
    else if c = '\\' then
      match rest with
      | [] => none
      | e :: rest =>
        if e = 'u' then
          match rest with
          | i :: j :: k :: l :: rest =>
            match readHex4 i j k l with
            | some n => (scanString rest).map fun r => (.unit n :: r.1, r.2)
            | none => none
          | _ => none
        else
          match unescape e with
          | some code => (scanString rest).map fun r => (.code code :: r.1, r.2)
          | none => none
    else if c.toNat < 0x20 then none
    else (scanString rest).map fun r => (.code (.ofChar c) :: r.1, r.2)

/-- The code point of a surrogate pair. -/
def joinSurrogates (high low : Nat) : CodePoint :=
  Fin.ofNat 0x110000 (0x10000 + 0x400 * (high - 0xD800) + (low - 0xDC00))

/-- The code point of one unit. -/
def unitCode (n : Fin 0x10000) : CodePoint := ⟨n.val, Nat.lt_trans n.isLt (by decide)⟩

/-- Escaped surrogates that follow each other as a pair are one character. -/
def joinPieces : List Piece → PyStr
  | [] => []
  | .code c :: rest => c :: joinPieces rest
  | [.unit n] => [unitCode n]
  | .unit n :: .code c :: rest => unitCode n :: c :: joinPieces rest
  | .unit n :: .unit m :: rest =>
    if highSurrogate n.val && lowSurrogate m.val then joinSurrogates n.val m.val :: joinPieces rest
    else unitCode n :: joinPieces (.unit m :: rest)

/-- A string literal behind its opening quote. -/
def readString (text : List Char) : Option (PyStr × List Char) :=
  (scanString text).map fun r => (joinPieces r.1, r.2)

/-- No high surrogate stands before a low one. -/
def Unpaired (s : PyStr) : Prop := s.IsChain fun a b => ¬(highSurrogate a.val = true ∧ lowSurrogate b.val = true)

instance (s : PyStr) : Decidable (Unpaired s) := inferInstanceAs (Decidable (s.IsChain _))

/-! ### Reading a string back -/

/-- The pieces a code point is written as. -/
def codePieces (c : CodePoint) : List Piece :=
  if (shortEscape c.val).isSome ∨ 0x20 ≤ c.val ∧ c.val ≤ 0x7E then [.code c]
  else if h : c.val < 0x10000 then [.unit ⟨c.val, h⟩]
  else [.unit (Fin.ofNat 0x10000 (0xD800 + (c.val - 0x10000) / 0x400)),
    .unit (Fin.ofNat 0x10000 (0xDC00 + (c.val - 0x10000) % 0x400))]

theorem hexValue_digitChar : ∀ d < 16, hexValue (Nat.digitChar d) = some d := by decide

theorem readHex4_hex4 {n : Nat} (h : n < 0x10000) :
    ∃ i j k l, hex4 n = [i, j, k, l] ∧ readHex4 i j k l = some (Fin.ofNat 0x10000 n) := by
  refine ⟨_, _, _, _, rfl, ?_⟩
  unfold readHex4
  rw [hexValue_digitChar _ (by omega), hexValue_digitChar _ (by omega), hexValue_digitChar _ (by omega),
    hexValue_digitChar _ (by omega)]
  have hsum : 4096 * (n / 4096 % 16) + 256 * (n / 256 % 16) + 16 * (n / 16 % 16) + n % 16 = n := by omega
  simp only [hsum]

theorem scanString_close (rest : List Char) : scanString ('"' :: rest) = some ([], rest) := by
  rw [scanString.eq_def]
  rfl

theorem scanString_plain {c : Char} (hquote : c ≠ '"') (hback : c ≠ '\\') (hlow : 0x20 ≤ c.toNat) (rest : List Char) :
    scanString (c :: rest) = (scanString rest).map fun r => (.code (.ofChar c) :: r.1, r.2) := by
  rw [scanString.eq_def]
  simp only [if_neg hquote, if_neg hback, if_neg (Nat.not_lt.mpr hlow)]

theorem scanString_short {e : Char} {code : CodePoint} (hne : e ≠ 'u') (hcode : unescape e = some code)
    (rest : List Char) :
    scanString ('\\' :: e :: rest) = (scanString rest).map fun r => (.code code :: r.1, r.2) := by
  rw [scanString.eq_def]
  simp only [Char.reduceEq, if_false, if_true, if_neg hne, hcode]

/-- An escaped unit is scanned as one. -/
theorem scanString_unit {n : Nat} (h : n < 0x10000) (rest : List Char) :
    scanString ('\\' :: 'u' :: hex4 n ++ rest) =
      (scanString rest).map fun r => (.unit (Fin.ofNat 0x10000 n) :: r.1, r.2) := by
  obtain ⟨i, j, k, l, hhex, hread⟩ := readHex4_hex4 h
  rw [hhex]
  show scanString ('\\' :: 'u' :: i :: j :: k :: l :: rest) = _
  rw [scanString]
  simp only [Char.reduceEq, if_false, if_true, hread]

theorem shortEscape_some {c : CodePoint} {e : Char} (h : shortEscape c.val = some e) :
    e ≠ 'u' ∧ unescape e = some c := by
  unfold shortEscape at h
  split at h
  · next hc => cases h; exact ⟨by decide, congrArg some (Fin.ext hc.symm)⟩
  split at h
  · next hc => cases h; exact ⟨by decide, congrArg some (Fin.ext hc.symm)⟩
  split at h
  · next hc => cases h; exact ⟨by decide, congrArg some (Fin.ext hc.symm)⟩
  split at h
  · next hc => cases h; exact ⟨by decide, congrArg some (Fin.ext hc.symm)⟩
  split at h
  · next hc => cases h; exact ⟨by decide, congrArg some (Fin.ext hc.symm)⟩
  split at h
  · next hc => cases h; exact ⟨by decide, congrArg some (Fin.ext hc.symm)⟩
  split at h
  · next hc => cases h; exact ⟨by decide, congrArg some (Fin.ext hc.symm)⟩
  · cases h

theorem shortEscape_none {n : Nat} (h : shortEscape n = none) : n ≠ 0x22 ∧ n ≠ 0x5C := by
  constructor
  · rintro rfl
    cases h
  · rintro rfl
    cases h

/-- A printable character is scanned as itself. -/
theorem scanString_char {c : CodePoint} (hshort : shortEscape c.val = none) (hlow : 0x20 ≤ c.val) (hhigh : c.val ≤ 0x7E)
    (rest : List Char) :
    scanString (Char.ofNat c.val :: rest) = (scanString rest).map fun r => (.code c :: r.1, r.2) := by
  obtain ⟨hquote, hback⟩ := shortEscape_none hshort
  have hnat : (Char.ofNat c.val).toNat = c.val := by
    rw [Char.toNat_ofNat, if_pos (Or.inl (by omega))]
  have hcode : CodePoint.ofChar (Char.ofNat c.val) = c := Fin.ext hnat
  have hne : ∀ d : Char, c.val ≠ d.toNat → Char.ofNat c.val ≠ d := by
    rintro d hd rfl
    exact hd hnat.symm
  rw [scanString_plain (hne '"' hquote) (hne '\\' hback) (by omega), hcode]

theorem scanString_escapeCode (c : CodePoint) (rest : List Char) :
    scanString (escapeCode c ++ rest) = (scanString rest).map fun r => (codePieces c ++ r.1, r.2) := by
  unfold escapeCode codePieces
  cases hshort : shortEscape c.val with
  | some e =>
    obtain ⟨hne, hcode⟩ := shortEscape_some hshort
    simp only [Option.isSome_some, true_or, if_true]
    exact scanString_short hne hcode rest
  | none =>
    simp only [Option.isSome_none, Bool.false_eq_true, false_or]
    by_cases hprint : 0x20 ≤ c.val ∧ c.val ≤ 0x7E
    · rw [if_pos hprint, if_pos hprint]
      exact scanString_char hshort hprint.1 hprint.2 rest
    · rw [if_neg hprint, if_neg hprint]
      by_cases hunit : c.val < 0x10000
      · rw [if_pos hunit, dif_pos hunit, scanString_unit hunit]
        rw [show Fin.ofNat 0x10000 c.val = ⟨c.val, hunit⟩ from Fin.ext (Nat.mod_eq_of_lt hunit)]
        rfl
      · have hhigh : 0xD800 + (c.val - 0x10000) / 0x400 < 0x10000 := by omega
        have hlow : 0xDC00 + (c.val - 0x10000) % 0x400 < 0x10000 := by omega
        rw [if_neg hunit, dif_neg hunit, List.append_assoc, scanString_unit hhigh, scanString_unit hlow, Option.map_map]
        rfl

theorem scanString_quoted (s : PyStr) (rest : List Char) :
    scanString (s.flatMap escapeCode ++ '"' :: rest) = some (s.flatMap codePieces, rest) := by
  induction s with
  | nil => exact scanString_close rest
  | cons c s ih =>
    rw [List.flatMap_cons, List.flatMap_cons, List.append_assoc, scanString_escapeCode, ih]
    rfl

/-- The pieces begin with an escaped low surrogate. -/
def StartsLow : List Piece → Prop
  | .unit m :: _ => lowSurrogate m.val = true
  | _ => False

theorem joinPieces_unit {n : Fin 0x10000} {rest : List Piece} (h : highSurrogate n.val = true → ¬StartsLow rest) :
    joinPieces (.unit n :: rest) = unitCode n :: joinPieces rest := by
  match rest with
  | [] => rfl
  | .code c :: rest => rfl
  | .unit m :: rest =>
    rw [joinPieces, if_neg]
    rw [Bool.and_eq_true]
    exact fun hpair => h hpair.1 hpair.2

theorem joinPieces_pair {n m : Fin 0x10000} (hn : highSurrogate n.val = true) (hm : lowSurrogate m.val = true)
    (rest : List Piece) : joinPieces (.unit n :: .unit m :: rest) = joinSurrogates n.val m.val :: joinPieces rest := by
  rw [joinPieces, if_pos]
  rw [hn, hm]
  rfl

/-- The two halves of a code point above the units make it up. -/
theorem joinSurrogates_halves {c : CodePoint} (h : ¬c.val < 0x10000) :
    joinSurrogates (0xD800 + (c.val - 0x10000) / 0x400) (0xDC00 + (c.val - 0x10000) % 0x400) = c := by
  have hlt := c.isLt
  apply Fin.ext
  unfold joinSurrogates
  rw [Fin.val_ofNat]
  omega

/-- A code point is joined from its own pieces unless it is a high surrogate and a low one follows. -/
theorem joinPieces_append {c : CodePoint} {rest : List Piece} (h : highSurrogate c.val = true → ¬StartsLow rest) :
    joinPieces (codePieces c ++ rest) = c :: joinPieces rest := by
  unfold codePieces
  split
  · rfl
  split
  · next hunit => exact joinPieces_unit h
  · next hunit =>
    have hlt := c.isLt
    have hhigh : (Fin.ofNat 0x10000 (0xD800 + (c.val - 0x10000) / 0x400)).val = 0xD800 + (c.val - 0x10000) / 0x400 :=
      Nat.mod_eq_of_lt (by omega)
    have hlow : (Fin.ofNat 0x10000 (0xDC00 + (c.val - 0x10000) % 0x400)).val = 0xDC00 + (c.val - 0x10000) % 0x400 :=
      Nat.mod_eq_of_lt (by omega)
    rw [List.cons_append, List.cons_append, List.nil_append, joinPieces_pair, hhigh, hlow]
    · rw [joinSurrogates_halves hunit]
    · rw [hhigh, highSurrogate, Bool.and_eq_true, decide_eq_true_eq, decide_eq_true_eq]
      omega
    · rw [hlow, lowSurrogate, Bool.and_eq_true, decide_eq_true_eq, decide_eq_true_eq]
      omega

theorem startsLow_codePieces {c : CodePoint} {rest : List Piece} (h : StartsLow (codePieces c ++ rest)) :
    lowSurrogate c.val = true := by
  unfold codePieces at h
  split at h
  · exact h.elim
  split at h
  · exact h
  · next hunit =>
    have hlt := c.isLt
    have hhigh : (Fin.ofNat 0x10000 (0xD800 + (c.val - 0x10000) / 0x400)).val = 0xD800 + (c.val - 0x10000) / 0x400 :=
      Nat.mod_eq_of_lt (by omega)
    have hlow : lowSurrogate (Fin.ofNat 0x10000 (0xD800 + (c.val - 0x10000) / 0x400)).val = true := h
    rw [hhigh, lowSurrogate, Bool.and_eq_true, decide_eq_true_eq, decide_eq_true_eq] at hlow
    omega

/-- The pieces of an unpaired string are joined to that string. -/
theorem joinPieces_codePieces {s : PyStr} (h : Unpaired s) : joinPieces (s.flatMap codePieces) = s := by
  induction s with
  | nil => rfl
  | cons c s ih =>
    rw [List.flatMap_cons, joinPieces_append, ih h.tail]
    intro hhigh hlow
    cases s with
    | nil => exact hlow
    | cons d s =>
      rw [List.flatMap_cons] at hlow
      exact (List.isChain_cons_cons.mp h).1 ⟨hhigh, startsLow_codePieces hlow⟩

/-- A string is read back unless one of its high surrogates stands before a low one. -/
theorem readString_quoted {s : PyStr} (h : Unpaired s) (rest : List Char) :
    readString (s.flatMap escapeCode ++ '"' :: rest) = some (s, rest) := by
  rw [readString, scanString_quoted]
  exact congrArg some (Prod.ext (joinPieces_codePieces h) rfl)

end PyJson

end LilTweak.Lib
