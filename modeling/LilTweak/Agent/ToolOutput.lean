import LilTweak.Core.Dumps
import LilTweak.Worlds.Runner
import Mathlib

/-!
# Tool outputs as the model reads them

`_canonical_json` writes what a tool returned as JSON within a limit of bytes, and
`_tool_output_record` embeds that text as a string in the record of the call. Embedding a JSON text
can at most double it, and the one text that is a single byte is a digit.
-/

namespace LilTweak.Agent

open LilTweak.Lib LilTweak.Core LilTweak.Worlds

/-- What the interpreter decides: how a float is written, `str` of a value that is no string, and
what `json.loads` makes of a text. -/
structure Python where
  float : ℚ → String
  plain : ∀ x, ∀ c ∈ (float x).toList, 32 ≤ c.toNat ∧ c ≠ '"' ∧ c ≠ '\\'
  repr : Json → String
  loads : String → Option Json

theorem plain_zero (_ : ℚ) : ∀ c ∈ ("0.0" : String).toList, 32 ≤ c.toNat ∧ c ≠ '"' ∧ c ≠ '\\' :=
  List.all_iff_forall_prop.mp (by decide)

/-- `str`. -/
def Python.str (P : Python) : Json → String
  | .str s => s
  | value => P.repr value

/-- What a tool returns, as `json.dumps` sees it; `unwritable` stands for an object it refuses and for
a string that has no UTF-8 form. -/
inductive ToolValue
  | null
  | bool (b : Bool)
  | int (i : Int)
  | float (x : ℚ)
  | nan
  | infinity (negative : Bool)
  | str (s : String)
  | arr (items : List ToolValue)
  | obj (fields : List (String × ToolValue))
  | unwritable

namespace ToolValue

variable (P : Python)

mutual
/-- `json.dumps(value, ensure_ascii=False, sort_keys=True, separators=(",", ":"))`, where the text can
be encoded. -/
def dumps : ToolValue → Option String
  | .null => some "null"
  | .bool b => some (if b then "true" else "false")
  | .int i => some (toString i)
  | .float x => some (P.float x)
  | .nan => some "NaN"
  | .infinity negative => some (if negative then "-Infinity" else "Infinity")
  | .str s => some (Json.quote s)
  | .arr items => (dumpsItems items).map fun texts => "[" ++ ",".intercalate texts ++ "]"
  | .obj fields => (dumpsFields fields).map fun texts =>
      "\x7b" ++ ",".intercalate ((texts.insertionSort Json.keyBefore).map fun p => Json.quote p.1 ++ ":" ++ p.2) ++ "\x7d"
  | .unwritable => none
/-- The items of an array. -/
def dumpsItems : List ToolValue → Option (List String)
  | [] => some []
  | item :: rest => do
    let text ← dumps item
    let texts ← dumpsItems rest
    return text :: texts
/-- The values of an object. -/
def dumpsFields : List (String × ToolValue) → Option (List (String × String))
  | [] => some []
  | (key, value) :: rest => do
    let text ← dumps value
    let texts ← dumpsFields rest
    return (key, text) :: texts
end

end ToolValue

variable (P : Python)

/-- `{"error": ...}`. -/
def toolError (error : String) : ToolValue := .obj [("error", .str error)]

/-- `{"error": "tool_output_truncated", "preview": ...}` as it is written. -/
def truncatedOutput (preview : String) : String :=
  "\x7b" ++ ",".intercalate [Json.quote "error" ++ ":" ++ Json.quote "tool_output_truncated",
    Json.quote "preview" ++ ":" ++ Json.quote preview] ++ "\x7d"

/-- The search of `_canonical_json` for the longest preview that fits. -/
def longestPreview (maxBytes : Nat) (output : String) (lower upper : Int) (best : String) : String :=
  if h : lower ≤ upper then
    let midpoint := (lower + upper) / 2
    let candidate := truncatedOutput (cutBytes midpoint.toNat output)
    if candidate.utf8ByteSize ≤ maxBytes then longestPreview maxBytes output (midpoint + 1) upper candidate
    else longestPreview maxBytes output lower (midpoint - 1) best
  else best
termination_by (upper + 1 - lower).toNat

/-- `_canonical_json`; `none` where `json.dumps` or the encoding raises. -/
def canonicalJson (value : ToolValue) (maxBytes : Nat) : Option String :=
  (value.dumps P).map fun output =>
    if output.utf8ByteSize ≤ maxBytes then output
    else
      let base := "\x7b" ++ (Json.quote "error" ++ ":" ++ Json.quote "tool_output_truncated") ++ "\x7d"
      if base.utf8ByteSize > maxBytes then (if maxBytes ≥ 1 then "0" else "")
      else longestPreview maxBytes output 0 output.utf8ByteSize base

/-- `_tool_output_record`: the record and its size. -/
def toolOutputRecord (callId : Json) (output : String) : JsonFields × Nat :=
  let record : JsonFields :=
    [("type", .str "function_call_output"), ("call_id", .str (P.str callId)), ("output", .str output)]
  (record, (Json.dumps P.float (.obj record)).utf8ByteSize)

/-! ## Sizes -/

variable {P}

/-- The escaped text of a string, without its quotes. -/
def escapedSize (s : String) : Nat := ((s.toList.map Json.escape).map String.utf8ByteSize).sum

theorem size_quote (s : String) : (Json.quote s).utf8ByteSize = escapedSize s + 2 := by
  have hquote : ("\"" : String).utf8ByteSize = 1 := by decide
  simp only [Json.quote, String.utf8ByteSize_append, Json.size_join, escapedSize, hquote]
  omega

/-- A record with an output is longer than the one without by the escaped output. -/
theorem size_toolOutputRecord (callId : Json) (output : String) :
    (toolOutputRecord P callId output).2 = (toolOutputRecord P callId "").2 + escapedSize output := by
  have hcall : Json.keyBefore ("call_id", Json.quote (P.str callId)) ("output", Json.quote output) := by
    show ("call_id" : String) ≤ "output"
    decide
  have hsorted : ∀ output : String,
      ([("type", Json.quote "function_call_output"), ("call_id", Json.quote (P.str callId)),
        ("output", Json.quote output)] : List (String × String)).insertionSort Json.keyBefore =
      [("call_id", Json.quote (P.str callId)), ("output", Json.quote output),
        ("type", Json.quote "function_call_output")] := by
    intro output
    have h1 : ¬("type" : String) ≤ "call_id" := by decide
    have h2 : ¬("type" : String) ≤ "output" := by decide
    have h3 : ("call_id" : String) ≤ "output" := by decide
    simp only [List.insertionSort_cons, List.insertionSort_nil, List.orderedInsert_nil, List.orderedInsert_cons,
      Json.keyBefore, h1, h2, h3, if_true, if_false]
  have hempty : escapedSize "" = 0 := by decide
  simp only [toolOutputRecord, Json.dumps, Json.dumpsFields, hsorted, List.map_cons, List.map_nil]
  simp only [String.intercalate_cons_cons, String.intercalate_singleton, String.utf8ByteSize_append, size_quote, hempty]
  omega

/-! ## JSON texts -/

/-- No control character stands in the text as it is. -/
def Printable (s : String) : Prop := ∀ c ∈ s.toList, 32 ≤ c.toNat

theorem Printable.append {s t : String} (hs : Printable s) (ht : Printable t) : Printable (s ++ t) := by
  intro c hc
  rw [String.toList_append] at hc
  rcases List.mem_append.mp hc with hc | hc
  · exact hs c hc
  · exact ht c hc

theorem printable_join {l : List String} (h : ∀ s ∈ l, Printable s) : Printable (String.join l) := by
  induction l with
  | nil =>
    intro c hc
    cases hc
  | cons s l ih =>
    rw [String.join_cons]
    exact (h s List.mem_cons_self).append (ih fun t ht => h t (List.mem_cons_of_mem _ ht))

theorem printable_intercalate {sep : String} {l : List String} (hsep : Printable sep) (h : ∀ s ∈ l, Printable s) :
    Printable (sep.intercalate l) := by
  induction l with
  | nil =>
    intro c hc
    cases hc
  | cons s l ih =>
    cases l with
    | nil =>
      rw [String.intercalate_singleton]
      exact h s List.mem_cons_self
    | cons t l =>
      rw [String.intercalate_cons_cons]
      exact ((h s List.mem_cons_self).append hsep).append (ih fun u hu => h u (List.mem_cons_of_mem _ hu))

theorem printable_digitChar (n : Nat) : 32 ≤ (Nat.digitChar n).toNat := by
  match n with
  | 0 | 1 | 2 | 3 | 4 | 5 | 6 | 7 | 8 | 9 | 10 | 11 | 12 | 13 | 14 | 15 => decide
  | _ + 16 => simp [Nat.digitChar]

theorem printable_escape (c : Char) : Printable (Json.escape c) := by
  unfold Json.escape
  split
  · exact List.all_iff_forall_prop.mp (by decide)
  split
  · exact List.all_iff_forall_prop.mp (by decide)
  split
  · exact List.all_iff_forall_prop.mp (by decide)
  split
  · exact List.all_iff_forall_prop.mp (by decide)
  split
  · exact List.all_iff_forall_prop.mp (by decide)
  split
  · exact List.all_iff_forall_prop.mp (by decide)
  split
  · exact List.all_iff_forall_prop.mp (by decide)
  split
  · have hfront : Printable "\\u00" := List.all_iff_forall_prop.mp (by decide)
    apply hfront.append
    intro d hd
    rw [Json.hexPair, String.toList_ofList] at hd
    rcases List.mem_pair.mp hd with rfl | rfl
    · exact printable_digitChar _
    · exact printable_digitChar _
  · next hplain =>
    intro d hd
    rw [String.toList_singleton, List.mem_singleton] at hd
    subst hd
    omega

theorem printable_quote (s : String) : Printable (Json.quote s) := by
  have hmark : Printable "\"" := List.all_iff_forall_prop.mp (by decide)
  refine (hmark.append (printable_join ?_)).append hmark
  intro t ht
  obtain ⟨c, _, rfl⟩ := List.mem_map.mp ht
  exact printable_escape c

/-- A character that is written as it is, and is no mark of a string. -/
def Plain (c : Char) : Prop := 32 ≤ c.toNat ∧ c ≠ '"' ∧ c ≠ '\\'

instance : DecidablePred Plain := fun c => inferInstanceAs (Decidable (32 ≤ c.toNat ∧ c ≠ '"' ∧ c ≠ '\\'))

theorem plain_digit {c : Char} (h : c.isDigit = true) : Plain c := by
  have hrange : 48 ≤ c.toNat ∧ c.toNat ≤ 57 := by
    simpa [Char.isDigit, UInt32.le_iff_toNat_le] using h
  refine ⟨by omega, ?_, ?_⟩
  · rintro rfl
    exact absurd h (by decide)
  · rintro rfl
    exact absurd h (by decide)

theorem plain_nat (n : Nat) : ∀ c ∈ (toString n).toList, Plain c := by
  intro c hc
  rw [Nat.toString_eq_ofList_toDigits, String.toList_ofList] at hc
  exact plain_digit (Nat.isDigit_of_mem_toDigits (by omega) (by omega) hc)

theorem plain_int (i : Int) : ∀ c ∈ (toString i).toList, Plain c := by
  cases i with
  | ofNat n => exact plain_nat n
  | negSucc n =>
    have hneg : toString (Int.negSucc n) = "-" ++ toString (n + 1) := rfl
    intro c hc
    rw [hneg, String.toList_append] at hc
    rcases List.mem_append.mp hc with hc | hc
    · rw [List.mem_singleton.mp (show c ∈ ['-'] from hc)]
      exact ⟨by decide, by decide, by decide⟩
    · exact plain_nat _ c hc

/-- A text that can be embedded in a JSON string at no more than twice its size; where it is a single
byte, at its size. -/
structure JsonText (s : String) : Prop where
  printable : Printable s
  single : s.utf8ByteSize ≤ 1 → ∀ c ∈ s.toList, Plain c

theorem JsonText.of_plain {s : String} (h : ∀ c ∈ s.toList, Plain c) : JsonText s :=
  ⟨fun c hc => (h c hc).1, fun _ => h⟩

theorem JsonText.of_long {s : String} (h : Printable s) (hlong : 2 ≤ s.utf8ByteSize) : JsonText s :=
  ⟨h, fun hshort => absurd hshort (by omega)⟩

theorem jsonText_quote (s : String) : JsonText (Json.quote s) :=
  .of_long (printable_quote s) (by rw [size_quote]; omega)

/-- A text between two printable marks of a byte. -/
theorem jsonText_between {s opening closing : String} (h : Printable s) (hopening : Printable opening)
    (hclosing : Printable closing) (hone : opening.utf8ByteSize = 1) (hone' : closing.utf8ByteSize = 1) :
    JsonText (opening ++ s ++ closing) := by
  refine .of_long ((hopening.append h).append hclosing) ?_
  simp only [String.utf8ByteSize_append]
  omega

theorem printable_field (key : String) {text : String} (h : Printable text) :
    Printable (Json.quote key ++ ":" ++ text) :=
  ((printable_quote key).append (List.all_iff_forall_prop.mp (by decide))).append h

/-- Fields between braces are a JSON text. -/
theorem jsonText_fields (fields : List (String × String)) (h : ∀ p ∈ fields, Printable p.2) :
    JsonText ("\x7b" ++ ",".intercalate (fields.map fun p => Json.quote p.1 ++ ":" ++ p.2) ++ "\x7d") := by
  refine jsonText_between (printable_intercalate (List.all_iff_forall_prop.mp (by decide)) ?_)
    (List.all_iff_forall_prop.mp (by decide)) (List.all_iff_forall_prop.mp (by decide)) (by decide) (by decide)
  intro t ht
  obtain ⟨p, hp, rfl⟩ := List.mem_map.mp ht
  exact printable_field p.1 (h p hp)

mutual
/-- What `json.dumps` writes is a JSON text. -/
theorem dumps_text (value : ToolValue) {text : String} (h : value.dumps P = some text) : JsonText text := by
  cases value with
  | null =>
    obtain rfl := Option.some.inj h
    exact .of_plain (List.all_iff_forall_prop.mp (by decide))
  | bool b =>
    obtain rfl := Option.some.inj h
    cases b
    · exact .of_plain (List.all_iff_forall_prop.mp (by decide))
    · exact .of_plain (List.all_iff_forall_prop.mp (by decide))
  | int i =>
    obtain rfl := Option.some.inj h
    exact .of_plain (plain_int i)
  | float x =>
    obtain rfl := Option.some.inj h
    exact .of_plain (P.plain x)
  | nan =>
    obtain rfl := Option.some.inj h
    exact .of_plain (List.all_iff_forall_prop.mp (by decide))
  | infinity negative =>
    obtain rfl := Option.some.inj h
    cases negative
    · exact .of_plain (List.all_iff_forall_prop.mp (by decide))
    · exact .of_plain (List.all_iff_forall_prop.mp (by decide))
  | str s =>
    obtain rfl := Option.some.inj h
    exact jsonText_quote s
  | arr items =>
    obtain ⟨texts, htexts, rfl⟩ := Option.map_eq_some_iff.mp h
    exact jsonText_between
      (printable_intercalate (List.all_iff_forall_prop.mp (by decide)) (dumpsItems_printable items htexts))
      (List.all_iff_forall_prop.mp (by decide)) (List.all_iff_forall_prop.mp (by decide)) (by decide) (by decide)
  | obj fields =>
    obtain ⟨texts, htexts, rfl⟩ := Option.map_eq_some_iff.mp h
    apply jsonText_fields
    intro p hp
    exact dumpsFields_printable fields htexts p ((List.perm_insertionSort _ texts).mem_iff.mp hp)
  | unwritable => cases h

theorem dumpsItems_printable (items : List ToolValue) {texts : List String}
    (h : ToolValue.dumpsItems P items = some texts) : ∀ t ∈ texts, Printable t := by
  cases items with
  | nil =>
    obtain rfl := Option.some.inj h
    intro t ht
    cases ht
  | cons item rest =>
    simp only [ToolValue.dumpsItems, Option.bind_eq_bind, Option.bind_eq_some_iff] at h
    obtain ⟨text, htext, texts', htexts, rest⟩ := h
    obtain rfl := Option.some.inj rest
    intro t ht
    rcases List.mem_cons.mp ht with rfl | ht
    · exact (dumps_text item htext).printable
    · exact dumpsItems_printable _ htexts t ht

theorem dumpsFields_printable (fields : List (String × ToolValue)) {texts : List (String × String)}
    (h : ToolValue.dumpsFields P fields = some texts) : ∀ p ∈ texts, Printable p.2 := by
  cases fields with
  | nil =>
    obtain rfl := Option.some.inj h
    intro t ht
    cases ht
  | cons field rest =>
    obtain ⟨key, value⟩ := field
    simp only [ToolValue.dumpsFields, Option.bind_eq_bind, Option.bind_eq_some_iff] at h
    obtain ⟨text, htext, texts', htexts, rest⟩ := h
    obtain rfl := Option.some.inj rest
    intro p hp
    rcases List.mem_cons.mp hp with rfl | hp
    · exact (dumps_text value htext).printable
    · exact dumpsFields_printable _ htexts p hp
end

/-! ## What an output takes -/

theorem escape_size {c : Char} (h : 32 ≤ c.toNat) : (Json.escape c).utf8ByteSize ≤ 2 * c.utf8Size := by
  unfold Json.escape
  split
  · next hc =>
    subst hc
    decide
  split
  · next hc =>
    subst hc
    decide
  split
  · next hc =>
    subst hc
    exact absurd h (by decide)
  split
  · next hc =>
    subst hc
    exact absurd h (by decide)
  split
  · next hc =>
    subst hc
    exact absurd h (by decide)
  split
  · next hc =>
    subst hc
    exact absurd h (by decide)
  split
  · next hc =>
    subst hc
    exact absurd h (by decide)
  rw [if_neg (by omega), Json.size_singleton]
  omega

theorem escape_plain {c : Char} (h : Plain c) : Json.escape c = String.singleton c := by
  obtain ⟨hprint, hquote, hslash⟩ := h
  have hcontrol : ∀ d : Char, d.toNat < 32 → c ≠ d := by
    rintro d hd rfl
    omega
  unfold Json.escape
  rw [if_neg hquote, if_neg hslash, if_neg (hcontrol _ (by decide)), if_neg (hcontrol _ (by decide)),
    if_neg (hcontrol _ (by decide)), if_neg (hcontrol _ (by decide)), if_neg (hcontrol _ (by decide)),
    if_neg (by omega)]

/-- The sizes of the characters of a string add up to its size. -/
theorem size_chars (s : String) : s.utf8ByteSize = (s.toList.map Char.utf8Size).sum := by
  have h : ∀ l : List Char, (String.ofList l).utf8ByteSize = (l.map Char.utf8Size).sum := by
    intro l
    induction l with
    | nil => rfl
    | cons c l ih =>
      rw [utf8ByteSize_ofList_cons, ih, List.map_cons, List.sum_cons]
  rw [← h s.toList, String.ofList_toList]

/-- A JSON text embedded in a string at most doubles. -/
theorem JsonText.escapedSize_le {s : String} (h : JsonText s) : escapedSize s ≤ 2 * s.utf8ByteSize := by
  have hall : ∀ l : List Char, (∀ c ∈ l, 32 ≤ c.toNat) →
      ((l.map Json.escape).map String.utf8ByteSize).sum ≤ 2 * (l.map Char.utf8Size).sum := by
    intro l hl
    induction l with
    | nil => exact Nat.le_refl _
    | cons c l ih =>
      have hc := escape_size (hl c List.mem_cons_self)
      have hrest := ih fun d hd => hl d (List.mem_cons_of_mem _ hd)
      simp only [List.map_cons, List.sum_cons]
      omega
  rw [size_chars]
  exact hall _ h.printable

/-- A JSON text of a single byte stays one. -/
theorem JsonText.escapedSize_single {s : String} (h : JsonText s) (hsingle : s.utf8ByteSize ≤ 1) :
    escapedSize s ≤ 1 := by
  have hall : ∀ l : List Char, (∀ c ∈ l, Plain c) →
      ((l.map Json.escape).map String.utf8ByteSize).sum = (l.map Char.utf8Size).sum := by
    intro l hl
    induction l with
    | nil => rfl
    | cons c l ih =>
      have hrest := ih fun d hd => hl d (List.mem_cons_of_mem _ hd)
      rw [List.map_cons, List.map_cons, List.sum_cons, hrest, escape_plain (hl c List.mem_cons_self),
        Json.size_singleton, List.map_cons, List.sum_cons]
  have hsize := hall s.toList (h.single hsingle)
  rw [← size_chars] at hsize
  exact hsize.trans_le hsingle

theorem longestPreview_fits {maxBytes : Nat} {output : String} {lower upper : Int} {best : String}
    (h : JsonText best ∧ best.utf8ByteSize ≤ maxBytes) :
    JsonText (longestPreview maxBytes output lower upper best) ∧
      (longestPreview maxBytes output lower upper best).utf8ByteSize ≤ maxBytes := by
  induction lower, upper, best using longestPreview.induct maxBytes output with
  | case1 lower upper best hle midpoint candidate hfits ih =>
    rw [longestPreview, dif_pos hle]
    rw [if_pos hfits]
    apply ih
    refine ⟨?_, hfits⟩
    exact jsonText_fields [("error", Json.quote "tool_output_truncated"),
      ("preview", Json.quote (cutBytes midpoint.toNat output))] fun p hp => by
        rcases List.mem_pair.mp hp with rfl | rfl
        · exact printable_quote _
        · exact printable_quote _
  | case2 lower upper best hle midpoint candidate hlong ih =>
    rw [longestPreview, dif_pos hle]
    rw [if_neg hlong]
    exact ih h
  | case3 lower upper best hgt =>
    rw [longestPreview, dif_neg hgt]
    exact h

/-- Within a positive limit `_canonical_json` writes a JSON text that keeps to it. -/
theorem canonicalJson_fits {value : ToolValue} {maxBytes : Nat} {text : String} (hpos : 0 < maxBytes)
    (h : canonicalJson P value maxBytes = some text) : JsonText text ∧ text.utf8ByteSize ≤ maxBytes := by
  obtain ⟨output, houtput, rfl⟩ := Option.map_eq_some_iff.mp h
  split
  · next hfits => exact ⟨dumps_text value houtput, hfits⟩
  simp only
  split
  · rw [if_pos (show maxBytes ≥ 1 from hpos)]
    exact ⟨.of_plain (List.all_iff_forall_prop.mp (by decide)), hpos⟩
  · next hbase =>
    refine longestPreview_fits ⟨?_, Nat.le_of_not_lt hbase⟩
    exact jsonText_fields [("error", Json.quote "tool_output_truncated")] fun p hp => by
      rw [List.mem_singleton.mp hp]
      exact printable_quote _

end LilTweak.Agent
