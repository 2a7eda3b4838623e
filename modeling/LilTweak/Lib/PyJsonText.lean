import LilTweak.Lib.PyJson
import LilTweak.Lib.Dict
import Mathlib

/-!
# Whole JSON texts

The compact text of a value, with the keys of its objects sorted or not, and the reader of
`json.loads`, which refuses a repeated key. A value whose strings are unpaired is read back from its
text.
-/

namespace LilTweak.Lib

namespace PyJson

/-! ## Writing -/

def intText (i : Int) : List Char := (if i < 0 then ['-'] else []) ++ Nat.toDigits 10 i.natAbs

mutual
/-- `json.dumps(value, separators=(",", ":"))`. -/
def text : PyJson → List Char
  | .null => ['n', 'u', 'l', 'l']
  | .bool true => ['t', 'r', 'u', 'e']
  | .bool false => ['f', 'a', 'l', 's', 'e']
  | .int i => intText i
  | .float literal => literal
  | .str s => quoted s
  | .arr [] => ['[', ']']
  | .arr (v :: rest) => '[' :: (text v ++ moreItems rest)
  | .obj [] => ['\x7b', '\x7d']
  | .obj ((k, v) :: rest) => '\x7b' :: (quoted k ++ ':' :: (text v ++ moreFields rest))
/-- The items behind the first one, and the closing bracket. -/
def moreItems : List PyJson → List Char
  | [] => [']']
  | v :: rest => ',' :: (text v ++ moreItems rest)
/-- The fields behind the first one, and the closing brace. -/
def moreFields : List (PyStr × PyJson) → List Char
  | [] => ['\x7d']
  | (k, v) :: rest => ',' :: (quoted k ++ ':' :: (text v ++ moreFields rest))
end

mutual
/-- The value with the keys of every object in order. -/
def sortKeys : PyJson → PyJson
  | .arr items => .arr (sortItems items)
  | .obj fields => .obj ((sortFields fields).insertionSort fun a b => a.1 ≤ b.1)
  | v => v
def sortItems : List PyJson → List PyJson
  | [] => []
  | v :: rest => sortKeys v :: sortItems rest
def sortFields : List (PyStr × PyJson) → List (PyStr × PyJson)
  | [] => []
  | (k, v) :: rest => (k, sortKeys v) :: sortFields rest
end

/-! ## Reading -/

/-- The text behind white space. -/
def skip (text : List Char) : List Char := text.dropWhile fun c => c = ' ' || c = '\t' || c = '\n' || c = '\r'

/-- A fraction of a number. -/
def fractionPart : List Char → List Char
  | [] => []
  | c :: rest => if c = '.' ∧ rest.takeWhile Char.isDigit ≠ [] then '.' :: rest.takeWhile Char.isDigit else []

/-- An exponent of a number. -/
def exponentPart : List Char → List Char
  | [] => []
  | c :: rest =>
    let sign := rest.takeWhile (fun d => d = '+' || d = '-') |>.take 1
    let digits := (rest.drop sign.length).takeWhile Char.isDigit
    if (c = 'e' ∨ c = 'E') ∧ digits ≠ [] then c :: (sign ++ digits) else []

/-- A number; an integer has at most as many digits as `int()` takes. -/
def readNumber (text : List Char) : Option (PyJson × List Char) :=
  let minus := text.head? = some '-'
  let body := if minus then text.tail else text
  let digits := body.takeWhile Char.isDigit
  let whole := if digits.head? = some '0' then ['0'] else digits
  let rest := body.drop whole.length
  let fraction := fractionPart rest
  let exponent := exponentPart (rest.drop fraction.length)
  if whole = [] then none
  else if fraction = [] ∧ exponent = [] then
    if 4300 < whole.length then none
    else some (.int (if minus then -(Nat.ofDigitChars 10 whole 0 : Int) else Nat.ofDigitChars 10 whole 0), rest)
  else
    some (.float ((if minus then ['-'] else []) ++ whole ++ fraction ++ exponent),
      (rest.drop fraction.length).drop exponent.length)

/-- A literal name, or else a number. -/
def readAtom (text : List Char) : Option (PyJson × List Char) :=
  if ['n', 'u', 'l', 'l'].isPrefixOf text then some (.null, text.drop 4)
  else if ['t', 'r', 'u', 'e'].isPrefixOf text then some (.bool true, text.drop 4)
  else if ['f', 'a', 'l', 's', 'e'].isPrefixOf text then some (.bool false, text.drop 5)
  else readNumber text

/-- `object_pairs_hook`: an object without a repeated key. -/
def objectOf (fields : List (PyStr × PyJson)) : Option PyJson :=
  if (fields.map Prod.fst).Nodup then some (.obj fields) else none

mutual
/-- A value, and what follows it. The first argument bounds the depth of the recursion. -/
def readValue : Nat → List Char → Option (PyJson × List Char)
  | 0, _ => none
  | _, [] => none
  | n + 1, c :: rest =>
    if c = '"' then (readString rest).map fun r => (.str r.1, r.2)
    else if c = '[' then
      if (skip rest).head? = some ']' then some (.arr [], (skip rest).tail)
      else (readItems n (skip rest)).map fun r => (.arr r.1, r.2)
    else if c = '\x7b' then
      if (skip rest).head? = some '\x7d' then some (.obj [], (skip rest).tail)
      else (readFields n (skip rest)).bind fun r => (objectOf r.1).map fun v => (v, r.2)
    else readAtom (c :: rest)
/-- The items of an array up to its bracket. -/
def readItems : Nat → List Char → Option (List PyJson × List Char)
  | 0, _ => none
  | n + 1, text =>
    (readValue n text).bind fun r =>
      if (skip r.2).head? = some ']' then some ([r.1], (skip r.2).tail)
      else if (skip r.2).head? = some ',' then
        (readItems n (skip (skip r.2).tail)).map fun more => (r.1 :: more.1, more.2)
      else none
/-- The fields of an object up to its brace. -/
def readFields : Nat → List Char → Option (List (PyStr × PyJson) × List Char)
  | 0, _ => none
  | n + 1, text =>
    if text.head? = some '"' then
      (readString text.tail).bind fun key =>
        if (skip key.2).head? = some ':' then
          (readValue n (skip (skip key.2).tail)).bind fun r =>
            if (skip r.2).head? = some '\x7d' then some ([(key.1, r.1)], (skip r.2).tail)
            else if (skip r.2).head? = some ',' then
              (readFields n (skip (skip r.2).tail)).map fun more => ((key.1, r.1) :: more.1, more.2)
            else none
        else none
    else none
end

/-- `json.loads`, with the hook that refuses a repeated key. -/
def loads (text : List Char) : Option PyJson :=
  match readValue (2 * text.length + 2) (skip text) with
  | some (v, rest) => if skip rest = [] then some v else none
  | none => none

/-! ## Reading a text back -/

mutual
/-- A value that is read back: its strings are unpaired, its integers short, its keys distinct. -/
def Readable : PyJson → Prop
  | .int i => (Nat.toDigits 10 i.natAbs).length ≤ 4300
  | .float _ => False
  | .str s => Unpaired s
  | .arr items => ReadableItems items
  | .obj fields => (fields.map Prod.fst).Nodup ∧ ReadableFields fields
  | _ => True
def ReadableItems : List PyJson → Prop
  | [] => True
  | v :: rest => Readable v ∧ ReadableItems rest
def ReadableFields : List (PyStr × PyJson) → Prop
  | [] => True
  | (k, v) :: rest => Unpaired k ∧ Readable v ∧ ReadableFields rest
end

/-- What may follow a value: nothing that would lengthen a number. -/
def Ends (rest : List Char) : Prop := ∀ c ∈ rest.head?, c.isDigit = false ∧ c ≠ '.' ∧ c ≠ 'e' ∧ c ≠ 'E'

theorem skip_of_head {c : Char} (hc : (c = ' ' || c = '\t' || c = '\n' || c = '\r') = false) (rest : List Char) :
    skip (c :: rest) = c :: rest := List.dropWhile_cons_of_neg (by rw [hc]; exact Bool.false_ne_true)

/-- The digits of a number begin with a zero only if it is zero. -/
theorem toDigits_head (n : Nat) : (Nat.toDigits 10 n).head? = some '0' → Nat.toDigits 10 n = ['0'] := by
  induction n using Nat.strong_induction_on with
  | _ n ih =>
    intro hhead
    by_cases hsmall : n < 10
    · rw [Nat.toDigits_of_lt_base hsmall] at hhead ⊢
      exact congrArg (· :: []) (Option.some.inj hhead)
    · rw [Nat.toDigits_of_base_le (by omega) (by omega)] at hhead
      rw [List.head?_append_of_ne_nil _ Nat.toDigits_ne_nil] at hhead
      have hzero := ih (n / 10) (by omega) hhead
      have hvalue := congrArg (fun l => Nat.ofDigitChars 10 l 0) hzero
      simp only [Nat.ofDigitChars_ten_toDigits] at hvalue
      have hsplit : n / 10 = 0 := hvalue
      omega

theorem takeWhile_toDigits (n : Nat) {rest : List Char} (h : Ends rest) :
    (Nat.toDigits 10 n ++ rest).takeWhile Char.isDigit = Nat.toDigits 10 n := by
  have hdigits : ∀ c ∈ Nat.toDigits 10 n, c.isDigit = true := fun c hc =>
    Nat.isDigit_of_mem_toDigits (by omega) (by omega) hc
  rw [List.takeWhile_append_of_pos hdigits]
  cases rest with
  | nil => simp
  | cons c rest => rw [List.takeWhile_cons_of_neg (by simp [(h c rfl).1]), List.append_nil]

theorem fractionPart_ends {rest : List Char} (h : Ends rest) : fractionPart rest = [] := by
  cases rest with
  | nil => rfl
  | cons c rest => exact if_neg fun hdot => (h c rfl).2.1 hdot.1

theorem exponentPart_ends {rest : List Char} (h : Ends rest) : exponentPart rest = [] := by
  cases rest with
  | nil => rfl
  | cons c rest =>
    obtain ⟨_, _, hlower, hupper⟩ := h c rfl
    exact if_neg fun hexp => hexp.1.elim hlower hupper

theorem digits_not_minus (n : Nat) (rest : List Char) : (Nat.toDigits 10 n ++ rest).head? ≠ some '-' := by
  rw [List.head?_append_of_ne_nil _ Nat.toDigits_ne_nil]
  intro hhead
  have hdigit := Nat.isDigit_of_mem_toDigits (b := 10) (by omega) (by omega) (List.mem_of_head? hhead)
  exact absurd hdigit (by decide)

/-- A number in digits is read back. -/
theorem readNumber_intText {i : Int} (hshort : (Nat.toDigits 10 i.natAbs).length ≤ 4300) {rest : List Char}
    (h : Ends rest) : readNumber (intText i ++ rest) = some (.int i, rest) := by
  have hwhole : (if (Nat.toDigits 10 i.natAbs).head? = some '0' then ['0'] else Nat.toDigits 10 i.natAbs) =
      Nat.toDigits 10 i.natAbs := by
    split
    · next hzero => exact (toDigits_head _ hzero).symm
    · rfl
  have hdrop : (Nat.toDigits 10 i.natAbs ++ rest).drop (Nat.toDigits 10 i.natAbs).length = rest := List.drop_left
  unfold readNumber intText
  by_cases hneg : i < 0
  · rw [if_pos hneg, List.append_assoc]
    simp only [List.cons_append, List.nil_append, List.head?_cons, List.tail_cons, if_true, takeWhile_toDigits _ h,
      hwhole, hdrop, fractionPart_ends h, exponentPart_ends h, if_neg Nat.toDigits_ne_nil, if_neg (Nat.not_lt.mpr hshort),
      Nat.ofDigitChars_ten_toDigits, and_self, List.length_nil, List.drop_zero]
    rw [show -(i.natAbs : Int) = i by omega]
  · have hhead := digits_not_minus i.natAbs rest
    rw [if_neg hneg, List.nil_append]
    simp only [if_neg hhead, takeWhile_toDigits _ h, hwhole, hdrop, fractionPart_ends h, exponentPart_ends h,
      if_neg Nat.toDigits_ne_nil, if_neg (Nat.not_lt.mpr hshort), Nat.ofDigitChars_ten_toDigits, and_self, if_true,
      List.length_nil, List.drop_zero]
    rw [show (i.natAbs : Int) = i by omega]

/-- A character a value begins with. -/
def Begins (c : Char) : Prop :=
  (c = ' ' || c = '\t' || c = '\n' || c = '\r') = false ∧ c ≠ ']' ∧ c ≠ '\x7d'

theorem begins_digit {c : Char} (h : c.isDigit = true) : Begins c := by
  have hne : ∀ d : Char, d.isDigit = false → c ≠ d := by
    rintro d hd rfl
    rw [hd] at h
    cases h
  refine ⟨?_, hne _ (by decide), hne _ (by decide)⟩
  simp [hne ' ' (by decide), hne '\t' (by decide), hne '\n' (by decide), hne '\r' (by decide)]

theorem text_head {v : PyJson} (h : Readable v) : ∃ c rest, text v = c :: rest ∧ Begins c := by
  cases v with
  | null => exact ⟨_, _, rfl, by decide, by decide, by decide⟩
  | bool b =>
    cases b
    · exact ⟨_, _, rfl, by decide, by decide, by decide⟩
    · exact ⟨_, _, rfl, by decide, by decide, by decide⟩
  | int i =>
    rw [text, intText]
    split
    · exact ⟨_, _, rfl, by decide, by decide, by decide⟩
    · obtain ⟨c, rest, hcons⟩ := List.exists_cons_of_ne_nil (Nat.toDigits_ne_nil (n := i.natAbs) (b := 10))
      rw [List.nil_append, hcons]
      exact ⟨c, rest, rfl, begins_digit (Nat.isDigit_of_mem_toDigits (b := 10) (n := i.natAbs) (by omega) (by omega)
        (hcons ▸ List.mem_cons_self))⟩
  | float literal => exact h.elim
  | str s => exact ⟨_, _, rfl, by decide, by decide, by decide⟩
  | arr items =>
    cases items with
    | nil => exact ⟨_, _, rfl, by decide, by decide, by decide⟩
    | cons v rest => exact ⟨_, _, rfl, by decide, by decide, by decide⟩
  | obj fields =>
    cases fields with
    | nil => exact ⟨_, _, rfl, by decide, by decide, by decide⟩
    | cons p rest => exact ⟨_, _, rfl, by decide, by decide, by decide⟩

theorem skip_text {v : PyJson} (h : Readable v) (rest : List Char) : skip (text v ++ rest) = text v ++ rest := by
  obtain ⟨c, more, htext, hc⟩ := text_head h
  rw [htext]
  exact skip_of_head hc.1 _

/-- A value that a reader with enough fuel finds at the front of a text. -/
structure Read (v : PyJson) : Prop where
  readable : Readable v
  found : ∀ n rest, 2 * (text v).length ≤ n → Ends rest → readValue n (text v ++ rest) = some (v, rest)

theorem ends_comma (rest : List Char) : Ends (',' :: rest) := by
  intro c hc
  obtain rfl := Option.some.inj hc
  decide

theorem ends_bracket (rest : List Char) : Ends (']' :: rest) := by
  intro c hc
  obtain rfl := Option.some.inj hc
  decide

theorem ends_brace (rest : List Char) : Ends ('\x7d' :: rest) := by
  intro c hc
  obtain rfl := Option.some.inj hc
  decide

theorem readItems_text {v : PyJson} (hv : Read v) {items : List PyJson} (hitems : ∀ w ∈ items, Read w) {n : Nat}
    (hn : 2 * (text v ++ moreItems items).length + 1 ≤ n) (rest : List Char) :
    readItems n (text v ++ moreItems items ++ rest) = some (v :: items, rest) := by
  induction items generalizing v n with
  | nil =>
    obtain ⟨n, rfl⟩ : ∃ m, n = m + 1 := ⟨n - 1, by omega⟩
    rw [List.length_append] at hn
    have hfound := hv.found n (']' :: rest) (by omega) (ends_bracket rest)
    rw [List.append_assoc, readItems, show moreItems [] ++ rest = ']' :: rest from rfl, hfound]
    rfl
  | cons w items ih =>
    obtain ⟨n, rfl⟩ : ∃ m, n = m + 1 := ⟨n - 1, by omega⟩
    rw [moreItems, List.length_append, List.length_cons] at hn
    have hfound := hv.found n (',' :: (text w ++ moreItems items ++ rest)) (by omega) (ends_comma _)
    have hmore := ih (hitems w List.mem_cons_self) (fun u hu => hitems u (List.mem_cons_of_mem _ hu)) (n := n) (by omega)
    have hskip : skip (text w ++ moreItems items ++ rest) = text w ++ moreItems items ++ rest := by
      rw [List.append_assoc]
      exact skip_text (hitems w List.mem_cons_self).readable _
    rw [moreItems, List.append_assoc, List.cons_append, readItems, hfound, Option.bind_some]
    simp only [skip_of_head (show (',' = ' ' || ',' = '\t' || ',' = '\n' || ',' = '\r') = false by decide),
      List.head?_cons, List.tail_cons, hskip, hmore]
    rfl

/-- A key and its value are read up to what follows the value. -/
theorem readFields_cons {k : PyStr} {v : PyJson} (hk : Unpaired k) (hv : Read v) {n : Nat}
    (hn : 2 * (text v).length ≤ n) {rest : List Char} (hrest : Ends rest) :
    readFields (n + 1) (quoted k ++ ':' :: (text v ++ rest)) =
      if (skip rest).head? = some '\x7d' then some ([(k, v)], (skip rest).tail)
      else if (skip rest).head? = some ',' then
        (readFields n (skip (skip rest).tail)).map fun more => ((k, v) :: more.1, more.2)
      else none := by
  have hquoted : quoted k ++ ':' :: (text v ++ rest) =
      '"' :: (k.flatMap escapeCode ++ '"' :: ':' :: (text v ++ rest)) := by
    rw [quoted, List.cons_append, List.append_assoc]
    rfl
  rw [hquoted, readFields, List.head?_cons, if_pos rfl, List.tail_cons, readString_quoted hk, Option.bind_some]
  simp only [skip_of_head (show (':' = ' ' || ':' = '\t' || ':' = '\n' || ':' = '\r') = false by decide),
    List.head?_cons, List.tail_cons, if_true, skip_text hv.readable, hv.found n rest hn hrest, Option.bind_some]

theorem readFields_text {k : PyStr} {v : PyJson} (hk : Unpaired k) (hv : Read v) {fields : List (PyStr × PyJson)}
    (hfields : ∀ p ∈ fields, Unpaired p.1 ∧ Read p.2) {n : Nat}
    (hn : 2 * (text v ++ moreFields fields).length + 1 ≤ n) (rest : List Char) :
    readFields n (quoted k ++ ':' :: (text v ++ (moreFields fields ++ rest))) = some ((k, v) :: fields, rest) := by
  induction fields generalizing k v n with
  | nil =>
    obtain ⟨n, rfl⟩ : ∃ m, n = m + 1 := ⟨n - 1, by omega⟩
    rw [List.length_append] at hn
    have hbrace : moreFields [] ++ rest = '\x7d' :: rest := rfl
    rw [hbrace, readFields_cons hk hv (by omega) (ends_brace rest),
      skip_of_head (show ('\x7d' = ' ' || '\x7d' = '\t' || '\x7d' = '\n' || '\x7d' = '\r') = false by decide)]
    rfl
  | cons p fields ih =>
    obtain ⟨l, w⟩ := p
    obtain ⟨n, rfl⟩ : ∃ m, n = m + 1 := ⟨n - 1, by omega⟩
    have hl : Unpaired l := (hfields (l, w) List.mem_cons_self).1
    have hw : Read w := (hfields (l, w) List.mem_cons_self).2
    rw [moreFields, List.length_append, List.length_cons, List.length_append, List.length_cons] at hn
    have hmore := ih hl hw (fun q hq => hfields q (List.mem_cons_of_mem _ hq)) (n := n) (by omega)
    have hcomma : moreFields ((l, w) :: fields) ++ rest =
        ',' :: (quoted l ++ ':' :: (text w ++ (moreFields fields ++ rest))) := by
      rw [moreFields, List.cons_append, List.append_assoc, List.cons_append, List.append_assoc]
    have hquote : skip (quoted l ++ ':' :: (text w ++ (moreFields fields ++ rest))) =
        quoted l ++ ':' :: (text w ++ (moreFields fields ++ rest)) :=
      skip_of_head (show ('"' = ' ' || '"' = '\t' || '"' = '\n' || '"' = '\r') = false by decide) _
    rw [hcomma, readFields_cons hk hv (by omega) (ends_comma _),
      skip_of_head (show (',' = ' ' || ',' = '\t' || ',' = '\n' || ',' = '\r') = false by decide),
      List.head?_cons, List.tail_cons, if_neg (by decide), if_pos rfl, hquote, hmore]
    rfl

theorem read_atom {v : PyJson} (hreadable : Readable v) (hlen : 0 < (text v).length)
    (hfirst : ∀ c ∈ (text v).head?, c ≠ '"' ∧ c ≠ '[' ∧ c ≠ '\x7b')
    (hatom : ∀ rest, Ends rest → readAtom (text v ++ rest) = some (v, rest)) : Read v := by
  refine ⟨hreadable, ?_⟩
  intro n rest hn hrest
  obtain ⟨n, rfl⟩ : ∃ m, n = m + 1 := ⟨n - 1, by omega⟩
  obtain ⟨c, more, htext⟩ := List.exists_cons_of_ne_nil (List.ne_nil_of_length_pos hlen)
  have hne := hfirst c (by rw [htext]; rfl)
  have hfound := hatom rest hrest
  rw [htext, List.cons_append] at hfound ⊢
  rw [readValue, if_neg hne.1, if_neg hne.2.1, if_neg hne.2.2, hfound]

theorem readAtom_intText {i : Int} (hshort : (Nat.toDigits 10 i.natAbs).length ≤ 4300) {rest : List Char}
    (h : Ends rest) : readAtom (intText i ++ rest) = some (.int i, rest) := by
  have hname : ∀ c d : Char, ∀ front more : List Char, c ≠ d → (c :: front).isPrefixOf (d :: more) = false := by
    intro c d front more hne
    simp [List.isPrefixOf, hne]
  have hhead : ∃ c more, intText i ++ rest = c :: more ∧ 'n' ≠ c ∧ 't' ≠ c ∧ 'f' ≠ c := by
    unfold intText
    split
    · exact ⟨_, _, rfl, by decide, by decide, by decide⟩
    · obtain ⟨c, more, hcons⟩ := List.exists_cons_of_ne_nil (Nat.toDigits_ne_nil (n := i.natAbs) (b := 10))
      have hdigit : c.isDigit = true := Nat.isDigit_of_mem_toDigits (b := 10) (n := i.natAbs) (by omega) (by omega)
        (hcons ▸ List.mem_cons_self)
      rw [List.nil_append, hcons]
      refine ⟨c, more ++ rest, rfl, ?_, ?_, ?_⟩
      · rintro rfl
        cases hdigit
      · rintro rfl
        cases hdigit
      · rintro rfl
        cases hdigit
  have hnumber := readNumber_intText hshort h
  obtain ⟨c, more, hcons, hn, ht, hf⟩ := hhead
  rw [hcons] at hnumber ⊢
  unfold readAtom
  rw [if_neg (by rw [hname 'n' c _ _ hn]; decide), if_neg (by rw [hname 't' c _ _ ht]; decide),
    if_neg (by rw [hname 'f' c _ _ hf]; decide), hnumber]

theorem intText_first (i : Int) : ∀ c ∈ (intText i).head?, c ≠ '"' ∧ c ≠ '[' ∧ c ≠ '\x7b' := by
  intro c hc
  unfold intText at hc
  split at hc
  · obtain rfl := Option.some.inj hc
    decide
  · have hdigit : c.isDigit = true := Nat.isDigit_of_mem_toDigits (b := 10) (n := i.natAbs) (by omega) (by omega)
      (List.mem_of_head? hc)
    refine ⟨?_, ?_, ?_⟩
    · rintro rfl
      cases hdigit
    · rintro rfl
      cases hdigit
    · rintro rfl
      cases hdigit

theorem read_int {i : Int} (h : Readable (.int i)) : Read (.int i) := by
  apply read_atom h
  · rw [text, intText, List.length_append]
    have hpos := List.length_pos_of_ne_nil (Nat.toDigits_ne_nil (n := i.natAbs) (b := 10))
    omega
  · exact intText_first i
  · exact fun rest hrest => readAtom_intText h hrest

theorem read_name {v : PyJson} (hreadable : Readable v) {c : Char} {more : List Char} (htext : text v = c :: more)
    (hfirst : c ≠ '"' ∧ c ≠ '[' ∧ c ≠ '\x7b') (hatom : ∀ rest, readAtom (c :: more ++ rest) = some (v, rest)) :
    Read v := by
  apply read_atom hreadable
  · rw [htext]
    exact Nat.succ_pos _
  · intro d hd
    rw [htext] at hd
    exact Option.some.inj hd ▸ hfirst
  · intro rest _
    rw [htext]
    exact hatom rest

theorem read_str {s : PyStr} (h : Unpaired s) : Read (.str s) := by
  refine ⟨h, ?_⟩
  intro n rest hn _
  have hpos : 0 < (text (.str s)).length := Nat.succ_pos _
  obtain ⟨n, rfl⟩ : ∃ m, n = m + 1 := ⟨n - 1, by omega⟩
  rw [text, quoted, List.cons_append, List.append_assoc, readValue, if_pos rfl]
  show (readString (s.flatMap escapeCode ++ '"' :: rest)).map _ = _
  rw [readString_quoted h]
  rfl

theorem read_arr {v : PyJson} {items : List PyJson} (h : Readable (.arr (v :: items))) (hv : Read v)
    (hitems : ∀ w ∈ items, Read w) : Read (.arr (v :: items)) := by
  refine ⟨h, ?_⟩
  intro n rest hn _
  rw [text, List.length_cons] at hn
  obtain ⟨n, rfl⟩ : ∃ m, n = m + 1 := ⟨n - 1, by omega⟩
  have hskip : skip (text v ++ moreItems items ++ rest) = text v ++ moreItems items ++ rest := by
    rw [List.append_assoc]
    exact skip_text hv.readable _
  obtain ⟨c, more, htext, hc⟩ := text_head hv.readable
  have hhead : (text v ++ moreItems items ++ rest).head? ≠ some ']' := by
    rw [htext]
    exact fun hbracket => hc.2.1 (Option.some.inj hbracket)
  rw [text, List.cons_append, readValue, if_neg (by decide), if_pos rfl, hskip, if_neg hhead,
    readItems_text hv hitems (by omega)]
  rfl

theorem read_obj {k : PyStr} {v : PyJson} {fields : List (PyStr × PyJson)} (h : Readable (.obj ((k, v) :: fields)))
    (hv : Read v) (hfields : ∀ p ∈ fields, Unpaired p.1 ∧ Read p.2) : Read (.obj ((k, v) :: fields)) := by
  refine ⟨h, ?_⟩
  intro n rest hn _
  rw [text, List.length_cons, List.length_append, List.length_cons] at hn
  obtain ⟨n, rfl⟩ : ∃ m, n = m + 1 := ⟨n - 1, by omega⟩
  have hbody : quoted k ++ ':' :: (text v ++ moreFields fields) ++ rest =
      quoted k ++ ':' :: (text v ++ (moreFields fields ++ rest)) := by
    rw [List.append_assoc, List.cons_append, List.append_assoc]
  have hskip : skip (quoted k ++ ':' :: (text v ++ (moreFields fields ++ rest))) =
      quoted k ++ ':' :: (text v ++ (moreFields fields ++ rest)) :=
    skip_of_head (show ('"' = ' ' || '"' = '\t' || '"' = '\n' || '"' = '\r') = false by decide) _
  rw [text, List.cons_append, readValue, if_neg (by decide), if_neg (by decide), if_pos rfl, hbody, hskip,
    if_neg (by exact fun hbrace => absurd (Option.some.inj hbrace) (by decide)),
    readFields_text h.2.1 hv hfields (by omega), Option.bind_some, objectOf, if_pos h.1]
  rfl

theorem read_arr_nil : Read (.arr []) := by
  refine ⟨trivial, ?_⟩
  intro n rest hn _
  rw [show (text (.arr [])).length = 2 from rfl] at hn
  obtain ⟨n, rfl⟩ : ∃ m, n = m + 1 := ⟨n - 1, by omega⟩
  show readValue (n + 1) ('[' :: ']' :: rest) = _
  rw [readValue, if_neg (by decide), if_pos rfl,
    skip_of_head (show (']' = ' ' || ']' = '\t' || ']' = '\n' || ']' = '\r') = false by decide)]
  rfl

theorem read_obj_nil : Read (.obj []) := by
  refine ⟨⟨.nil, trivial⟩, ?_⟩
  intro n rest hn _
  rw [show (text (.obj [])).length = 2 from rfl] at hn
  obtain ⟨n, rfl⟩ : ∃ m, n = m + 1 := ⟨n - 1, by omega⟩
  show readValue (n + 1) ('\x7b' :: '\x7d' :: rest) = _
  rw [readValue, if_neg (by decide), if_neg (by decide), if_pos rfl,
    skip_of_head (show ('\x7d' = ' ' || '\x7d' = '\t' || '\x7d' = '\n' || '\x7d' = '\r') = false by decide)]
  rfl

mutual
/-- A readable value is read back. -/
theorem Readable.read : ∀ {v : PyJson}, Readable v → Read v
  | .null, h => read_name h rfl (by decide) fun rest => by simp [readAtom, List.isPrefixOf]
  | .bool true, h => read_name h rfl (by decide) fun rest => by simp [readAtom, List.isPrefixOf]
  | .bool false, h => read_name h rfl (by decide) fun rest => by simp [readAtom, List.isPrefixOf]
  | .int i, h => read_int h
  | .float _, h => h.elim
  | .str s, h => read_str h
  | .arr [], _ => read_arr_nil
  | .arr (v :: items), h => read_arr h (Readable.read h.1) (ReadableItems.read h.2)
  | .obj [], _ => read_obj_nil
  | .obj ((k, v) :: fields), h => read_obj h (Readable.read h.2.2.1) (ReadableFields.read h.2.2.2)
theorem ReadableItems.read : ∀ {items : List PyJson}, ReadableItems items → ∀ v ∈ items, Read v
  | [], _ => nofun
  | v :: rest, h => by
    have hv := Readable.read h.1
    have hrest := ReadableItems.read h.2
    intro w hw
    rcases List.mem_cons.mp hw with rfl | hw
    · exact hv
    · exact hrest w hw
theorem ReadableFields.read : ∀ {fields : List (PyStr × PyJson)}, ReadableFields fields →
    ∀ p ∈ fields, Unpaired p.1 ∧ Read p.2
  | [], _ => nofun
  | (k, v) :: rest, h => by
    have hv := Readable.read h.2.1
    have hrest := ReadableFields.read h.2.2
    intro p hp
    rcases List.mem_cons.mp hp with rfl | hp
    · exact ⟨h.1, hv⟩
    · exact hrest p hp
end

/-- `json.loads` of a text, and of the text in a line, gives the value back. -/
theorem loads_text {v : PyJson} (h : Readable v) : loads (text v) = some v ∧ loads (text v ++ ['\n']) = some v := by
  have hread := h.read
  unfold loads
  constructor
  · have hskip := skip_text h []
    rw [List.append_nil] at hskip
    have hfound := hread.found (2 * (text v).length + 2) [] (by omega) nofun
    rw [List.append_nil] at hfound
    rw [hskip, hfound]
    rfl
  · have hends : Ends ['\n'] := by
      intro c hc
      obtain rfl := Option.some.inj hc
      decide
    have hfound := hread.found (2 * (text v ++ ['\n']).length + 2) ['\n'] (by rw [List.length_append]; omega) hends
    rw [skip_text h, hfound]
    rfl

end PyJson

end LilTweak.Lib
