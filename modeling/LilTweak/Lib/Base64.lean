import LilTweak.Lib.Utf16
import Mathlib

/-!
# Base64

`btoa` of bytes and the forgiving `atob`, which reads white space and missing padding; what the
first writes the second reads back.
-/

namespace LilTweak.Lib

/-- The digits of base64. -/
def base64Alphabet : JsString :=
  JsString.ofText "ABCDEFGHIJKLMNOPQRSTUVWXYZabcdefghijklmnopqrstuvwxyz0123456789+/"

/-- A digit. -/
def base64Digit (n : Nat) : CodeUnit := base64Alphabet.getD n 0

/-- The value of a digit. -/
def base64Value (u : CodeUnit) : Option Nat := base64Alphabet.findIdx? fun v => decide (v = u)

/-- `=`. -/
abbrev base64Pad : CodeUnit := Fin.ofNat 0x10000 '='.toNat

/-- `btoa` of bytes. -/
def btoa : List UInt8 → JsString
  | a :: b :: c :: rest =>
    let n := a.toNat * 0x10000 + b.toNat * 0x100 + c.toNat
    base64Digit (n / 0x40000) :: base64Digit (n / 0x1000 % 0x40) :: base64Digit (n / 0x40 % 0x40) ::
      base64Digit (n % 0x40) :: btoa rest
  | [a, b] =>
    let n := a.toNat * 0x400 + b.toNat * 4
    [base64Digit (n / 0x1000), base64Digit (n / 0x40 % 0x40), base64Digit (n % 0x40), base64Pad]
  | [a] =>
    let n := a.toNat * 0x10
    [base64Digit (n / 0x40), base64Digit (n % 0x40), base64Pad, base64Pad]
  | [] => []

/-- White space that `atob` removes. -/
def base64Space (u : CodeUnit) : Bool := decide (u.val = 9 ∨ u.val = 10 ∨ u.val = 12 ∨ u.val = 13 ∨ u.val = 32)

/-- The padding is removed where the length is a multiple of four. -/
def withoutPadding (s : JsString) : JsString :=
  if s.length % 4 = 0 then
    match s.reverse with
    | u :: v :: rest =>
      if u = base64Pad then (if v = base64Pad then rest.reverse else (v :: rest).reverse) else s
    | _ => s
  else s

/-- The bytes of a sequence of digit values; what is left over of a byte is dropped. -/
def sextetBytes : List Nat → Option (List UInt8)
  | a :: b :: c :: d :: rest =>
    let n := a * 0x40000 + b * 0x1000 + c * 0x40 + d
    (sextetBytes rest).map fun bytes =>
      UInt8.ofNat (n / 0x10000) :: UInt8.ofNat (n / 0x100) :: UInt8.ofNat n :: bytes
  | [a, b, c] =>
    let n := (a * 0x1000 + b * 0x40 + c) / 4
    some [UInt8.ofNat (n / 0x100), UInt8.ofNat n]
  | [a, b] => some [UInt8.ofNat ((a * 0x40 + b) / 0x10)]
  | [_] => none
  | [] => some []

/-- `atob`; `none` where it throws. -/
def atob (s : JsString) : Option (List UInt8) := do
  let digits ← (withoutPadding (s.filter fun u => !base64Space u)).mapM base64Value
  sextetBytes digits

theorem base64Value_digit {n : Nat} (h : n < 64) : base64Value (base64Digit n) = some n := by
  have hall : ∀ n < 64, base64Value (base64Digit n) = some n := by decide +kernel
  exact hall n h

theorem base64Digit_plain {n : Nat} (h : n < 64) :
    base64Space (base64Digit n) = false ∧ base64Digit n ≠ base64Pad := by
  have hall : ∀ n < 64, base64Space (base64Digit n) = false ∧ base64Digit n ≠ base64Pad := by decide +kernel
  exact hall n h

/-- The digits of bytes, as values. -/
def sextets : List UInt8 → List Nat
  | a :: b :: c :: rest =>
    let n := a.toNat * 0x10000 + b.toNat * 0x100 + c.toNat
    n / 0x40000 :: n / 0x1000 % 0x40 :: n / 0x40 % 0x40 :: n % 0x40 :: sextets rest
  | [a, b] =>
    let n := a.toNat * 0x400 + b.toNat * 4
    [n / 0x1000, n / 0x40 % 0x40, n % 0x40]
  | [a] =>
    let n := a.toNat * 0x10
    [n / 0x40, n % 0x40]
  | [] => []

/-- How many pads follow the digits of so many bytes. -/
def padding : Nat → Nat
  | 0 => 0
  | 1 => 2
  | 2 => 1
  | n + 3 => padding n

theorem sextets_lt (bytes : List UInt8) : ∀ n ∈ sextets bytes, n < 64 := by
  induction bytes using sextets.induct with
  | case1 a b c rest ih =>
    have ha := a.toNat_lt
    have hb := b.toNat_lt
    have hc := c.toNat_lt
    intro n hn
    simp only [sextets, List.mem_cons] at hn
    rcases hn with rfl | rfl | rfl | rfl | hn
    · omega
    · omega
    · omega
    · omega
    · exact ih n hn
  | case2 a b =>
    have ha := a.toNat_lt
    have hb := b.toNat_lt
    intro n hn
    simp only [sextets, List.mem_cons, List.not_mem_nil, or_false] at hn
    rcases hn with rfl | rfl | rfl <;> omega
  | case3 a =>
    have ha := a.toNat_lt
    intro n hn
    simp only [sextets, List.mem_cons, List.not_mem_nil, or_false] at hn
    rcases hn with rfl | rfl <;> omega
  | case4 => exact fun n hn => absurd hn List.not_mem_nil

theorem btoa_eq (bytes : List UInt8) :
    btoa bytes = (sextets bytes).map base64Digit ++ List.replicate (padding bytes.length) base64Pad := by
  induction bytes using btoa.induct with
  | case1 a b c rest ih => simp only [btoa, sextets, List.length_cons, padding, ih, List.map_cons, List.cons_append]
  | case2 a b => rfl
  | case3 a => rfl
  | case4 => rfl

theorem sextets_length (bytes : List UInt8) : ((sextets bytes).length + padding bytes.length) % 4 = 0 := by
  induction bytes using sextets.induct with
  | case1 a b c rest ih =>
    simp only [sextets, List.length_cons, padding]
    omega
  | case2 a b => simp only [sextets, List.length_cons, List.length_nil, padding]
  | case3 a => simp only [sextets, List.length_cons, List.length_nil, padding]
  | case4 => rfl

theorem padding_le (n : Nat) : padding n ≤ 2 := by
  induction n using padding.induct with
  | case1 => decide
  | case2 => decide
  | case3 => decide
  | case4 n ih => exact ih

theorem uint8_ofNat {x : Nat} {a : UInt8} (h : x % 0x100 = a.toNat) : UInt8.ofNat x = a := by
  apply UInt8.toNat.inj
  rw [UInt8.toNat_ofNat']
  exact h

theorem four_digits (n : Nat) :
    n / 0x40000 * 0x40000 + n / 0x1000 % 0x40 * 0x1000 + n / 0x40 % 0x40 * 0x40 + n % 0x40 = n := by
  have h1 : n / 0x1000 = n / 0x40 / 0x40 := (Nat.div_div_eq_div_mul n 0x40 0x40).symm
  have h2 : n / 0x40000 = n / 0x40 / 0x40 / 0x40 := by
    rw [Nat.div_div_eq_div_mul, Nat.div_div_eq_div_mul]
  rw [h1, h2]
  generalize hb : n / 0x40 = b
  generalize hc : b / 0x40 = c
  omega

theorem three_digits (n : Nat) : n / 0x1000 * 0x1000 + n / 0x40 % 0x40 * 0x40 + n % 0x40 = n := by
  have h1 : n / 0x1000 = n / 0x40 / 0x40 := (Nat.div_div_eq_div_mul n 0x40 0x40).symm
  omega

/-- The bytes of their own digits. -/
theorem sextetBytes_sextets (bytes : List UInt8) : sextetBytes (sextets bytes) = some bytes := by
  induction bytes using sextets.induct with
  | case1 a b c rest ih =>
    have ha := a.toNat_lt
    have hb := b.toNat_lt
    have hc := c.toNat_lt
    obtain ⟨n, hn⟩ : ∃ n, a.toNat * 0x10000 + b.toNat * 0x100 + c.toNat = n := ⟨_, rfl⟩
    have h1 : UInt8.ofNat (n / 0x10000) = a := uint8_ofNat (by omega)
    have h2 : UInt8.ofNat (n / 0x100) = b := uint8_ofNat (by omega)
    have h3 : UInt8.ofNat n = c := uint8_ofNat (by omega)
    simp only [sextets, sextetBytes, ih, hn, four_digits, Option.map_some, h1, h2, h3]
  | case2 a b =>
    have ha := a.toNat_lt
    have hb := b.toNat_lt
    obtain ⟨n, hn⟩ : ∃ n, a.toNat * 0x400 + b.toNat * 4 = n := ⟨_, rfl⟩
    have h1 : UInt8.ofNat (n / 4 / 0x100) = a := uint8_ofNat (by omega)
    have h2 : UInt8.ofNat (n / 4) = b := uint8_ofNat (by omega)
    simp only [sextets, sextetBytes, hn, three_digits, h1, h2]
  | case3 a =>
    have ha := a.toNat_lt
    have h1 : UInt8.ofNat ((a.toNat * 0x10 / 0x40 * 0x40 + a.toNat * 0x10 % 0x40) / 0x10) = a :=
      uint8_ofNat (by omega)
    simp only [sextets, sextetBytes, h1]
  | case4 => rfl

theorem mapM_digits {values : List Nat} (h : ∀ n ∈ values, n < 64) :
    (values.map base64Digit).mapM base64Value = some values := by
  induction values with
  | nil => rfl
  | cons n rest ih =>
    rw [List.map_cons, List.mapM_cons, base64Value_digit (h n List.mem_cons_self),
      ih fun m hm => h m (List.mem_cons_of_mem _ hm)]
    rfl

/-- The padding goes where it was written. -/
theorem withoutPadding_append {digits : JsString} {k : Nat} (hk : k ≤ 2) (hlength : (digits.length + k) % 4 = 0)
    (hdigits : base64Pad ∉ digits) : withoutPadding (digits ++ List.replicate k base64Pad) = digits := by
  unfold withoutPadding
  rw [List.length_append, List.length_replicate, if_pos hlength]
  obtain rfl | rfl | rfl : k = 0 ∨ k = 1 ∨ k = 2 := by omega
  · rw [List.replicate_zero, List.append_nil]
    split
    · next u v rest hrev =>
      have hu : u ∈ digits := List.mem_reverse.mp (hrev ▸ List.mem_cons_self)
      have hne : u ≠ base64Pad := fun he => hdigits (he ▸ hu)
      rw [if_neg hne]
    · rfl
  · have hrev : (digits ++ List.replicate 1 base64Pad).reverse = base64Pad :: digits.reverse := by simp
    rw [hrev]
    cases hd : digits.reverse with
    | nil =>
      have hnil : digits = [] := List.reverse_eq_nil_iff.mp hd
      subst hnil
      simp at hlength
    | cons v rest =>
      have hv : v ∈ digits := List.mem_reverse.mp (hd ▸ List.mem_cons_self)
      have hne : v ≠ base64Pad := fun he => hdigits (he ▸ hv)
      simp only [if_true]
      rw [if_neg hne, ← hd, List.reverse_reverse]
  · have hrev : (digits ++ List.replicate 2 base64Pad).reverse = base64Pad :: base64Pad :: digits.reverse := by
      simp [List.replicate]
    rw [hrev]
    simp only [if_true, List.reverse_reverse]

/-- `atob` reads back what `btoa` writes. -/
theorem atob_btoa (bytes : List UInt8) : atob (btoa bytes) = some bytes := by
  have hlt := sextets_lt bytes
  have hplain : ∀ u ∈ (sextets bytes).map base64Digit, base64Space u = false ∧ u ≠ base64Pad := by
    intro u hu
    obtain ⟨n, hn, rfl⟩ := List.mem_map.mp hu
    exact base64Digit_plain (hlt n hn)
  have hfilter : (btoa bytes).filter (fun u => !base64Space u) = btoa bytes := by
    apply List.filter_eq_self.mpr
    intro u hu
    rw [btoa_eq] at hu
    rcases List.mem_append.mp hu with hu | hu
    · rw [(hplain u hu).1]
      rfl
    · rw [List.eq_of_mem_replicate hu]
      decide
  have hlength : (((sextets bytes).map base64Digit).length + padding bytes.length) % 4 = 0 := by
    rw [List.length_map]
    exact sextets_length bytes
  have hpad : base64Pad ∉ (sextets bytes).map base64Digit := fun h => (hplain _ h).2 rfl
  unfold atob
  rw [hfilter, btoa_eq, withoutPadding_append (padding_le _) hlength hpad, mapM_digits hlt]
  exact sextetBytes_sextets bytes

/-- The length of what `btoa` writes. -/
theorem btoa_length (bytes : List UInt8) : (btoa bytes).length = (bytes.length + 2) / 3 * 4 := by
  induction bytes using btoa.induct with
  | case1 a b c rest ih =>
    simp only [btoa, List.length_cons, ih]
    omega
  | case2 a b => simp only [btoa, List.length_cons, List.length_nil]
  | case3 a => simp only [btoa, List.length_cons, List.length_nil]
  | case4 => rfl

end LilTweak.Lib
