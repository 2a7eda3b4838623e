import LilTweak.Agent.Cuts
import LilTweak.Lib.JsonGrammar
import Mathlib

/-!
# The longest preview

An output that does not fit is written as an error with a preview of it. How long the preview can be is
found by bisection over the bytes of the output, and it is the longest that fits: a longer preview never
takes fewer bytes, whatever is escaped in it.
-/

namespace LilTweak.Agent

open LilTweak.Lib LilTweak.Core LilTweak.Worlds

/-! ## What is written is JSON -/

mutual
/-- No number that is not finite, and nothing `json.dumps` refuses. -/
def ToolValue.Finite : ToolValue → Prop
  | .nan | .infinity _ | .unwritable => False
  | .null | .bool _ | .int _ | .float _ | .str _ => True
  | .arr items => ToolValue.FiniteItems items
  | .obj fields => ToolValue.FiniteFields fields
def ToolValue.FiniteItems : List ToolValue → Prop
  | [] => True
  | item :: rest => item.Finite ∧ ToolValue.FiniteItems rest
def ToolValue.FiniteFields : List (String × ToolValue) → Prop
  | [] => True
  | (_, value) :: rest => value.Finite ∧ ToolValue.FiniteFields rest
end

theorem piece_escape (c : Char) : JsonGrammar.Piece (Json.escape c) := by
  have hpair : ∀ s e, s = "\\" ++ String.singleton e → e ∈ ['"', '\\', '/', 'b', 'f', 'n', 'r', 't'] →
      JsonGrammar.Piece s := by
    intro s e hs he
    rw [hs]
    exact .short e he
  unfold Json.escape
  split
  · exact hpair _ '"' rfl (by decide)
  next hquote =>
  split
  · exact hpair _ '\\' rfl (by decide)
  next hback =>
  split
  · exact hpair _ 'n' rfl (by decide)
  split
  · exact hpair _ 'r' rfl (by decide)
  split
  · exact hpair _ 't' rfl (by decide)
  split
  · exact hpair _ 'b' rfl (by decide)
  split
  · exact hpair _ 'f' rfl (by decide)
  split
  · next hcontrol =>
    have hunit := JsonGrammar.Piece.unit ['0', '0', Nat.digitChar (c.toNat / 16), Nat.digitChar (c.toNat % 16)] rfl (by
      intro d hd
      have hhex : ∀ n < 16, JsonGrammar.HexDigit (Nat.digitChar n) := by decide
      simp only [List.mem_cons, List.not_mem_nil, or_false] at hd
      rcases hd with rfl | rfl | rfl | rfl
      · exact hhex 0 (by omega)
      · exact hhex 0 (by omega)
      · exact hhex _ (by omega)
      · exact hhex _ (by omega))
    have htext : "\\u" ++ String.ofList ['0', '0', Nat.digitChar (c.toNat / 16), Nat.digitChar (c.toNat % 16)] =
        "\\u00" ++ Json.hexPair c.toNat := by
      rw [Json.hexPair, ← String.toList_inj, String.toList_append, String.toList_append]
      simp only [String.toList_ofList]
      rfl
    rwa [htext] at hunit
  · next hcontrol => exact .plain c (Nat.le_of_not_lt hcontrol) hquote hback

theorem quoted_quote (s : String) : JsonGrammar.Quoted (Json.quote s) := by
  refine ⟨s.toList.map Json.escape, rfl, ?_⟩
  intro p hp
  obtain ⟨c, -, rfl⟩ := List.mem_map.mp hp
  exact piece_escape c

variable {P : Python}

mutual
/-- A finite value is written as a JSON text. -/
theorem dumps_value (hfloat : ∀ x, JsonGrammar.Number (P.float x).toList) (value : ToolValue) (h : value.Finite) :
    ∃ text, value.dumps P = some text ∧ JsonGrammar.Value text := by
  cases value with
  | null => exact ⟨_, rfl, .null⟩
  | bool b =>
    cases b
    · exact ⟨_, rfl, .false⟩
    · exact ⟨_, rfl, .true⟩
  | int i => exact ⟨_, rfl, .number _ (JsonGrammar.number_int i)⟩
  | float x => exact ⟨_, rfl, .number _ (hfloat x)⟩
  | nan => exact absurd h id
  | infinity negative => exact absurd h id
  | str s => exact ⟨_, rfl, .string _ (quoted_quote s)⟩
  | arr items =>
    obtain ⟨texts, htexts, hvalues⟩ := dumpsItems_values hfloat items h
    refine ⟨_, ?_, .array texts hvalues⟩
    rw [ToolValue.dumps, htexts]
    rfl
  | obj fields =>
    obtain ⟨texts, htexts, hvalues⟩ := dumpsFields_values hfloat fields h
    refine ⟨_, ?_, JsonGrammar.value_members Json.quote quoted_quote (texts.insertionSort Json.keyBefore) ?_⟩
    · rw [ToolValue.dumps, htexts]
      rfl
    · intro f hf
      exact hvalues f ((List.perm_insertionSort _ texts).mem_iff.mp hf)
  | unwritable => exact absurd h id

theorem dumpsItems_values (hfloat : ∀ x, JsonGrammar.Number (P.float x).toList) (items : List ToolValue)
    (h : ToolValue.FiniteItems items) :
    ∃ texts, ToolValue.dumpsItems P items = some texts ∧ ∀ t ∈ texts, JsonGrammar.Value t := by
  cases items with
  | nil => exact ⟨[], rfl, fun _ ht => absurd ht List.not_mem_nil⟩
  | cons item rest =>
    obtain ⟨text, htext, hvalue⟩ := dumps_value hfloat item h.1
    obtain ⟨texts, htexts, hvalues⟩ := dumpsItems_values hfloat rest h.2
    refine ⟨text :: texts, ?_, List.forall_mem_cons.mpr ⟨hvalue, hvalues⟩⟩
    rw [ToolValue.dumpsItems, htext, htexts]
    rfl

theorem dumpsFields_values (hfloat : ∀ x, JsonGrammar.Number (P.float x).toList) (fields : List (String × ToolValue))
    (h : ToolValue.FiniteFields fields) :
    ∃ texts, ToolValue.dumpsFields P fields = some texts ∧ ∀ f ∈ texts, JsonGrammar.Value f.2 := by
  cases fields with
  | nil => exact ⟨[], rfl, fun _ ht => absurd ht List.not_mem_nil⟩
  | cons field rest =>
    obtain ⟨key, value⟩ := field
    obtain ⟨text, htext, hvalue⟩ := dumps_value hfloat value h.1
    obtain ⟨texts, htexts, hvalues⟩ := dumpsFields_values hfloat rest h.2
    refine ⟨(key, text) :: texts, ?_, List.forall_mem_cons.mpr ⟨hvalue, hvalues⟩⟩
    rw [ToolValue.dumpsFields, htext, htexts]
    rfl
end

/-- `{"error": "tool_output_truncated"}` as it is written. -/
def bareError : String := "\x7b" ++ (Json.quote "error" ++ ":" ++ Json.quote "tool_output_truncated") ++ "\x7d"

theorem value_bareError : JsonGrammar.Value bareError :=
  JsonGrammar.value_members Json.quote quoted_quote [("error", Json.quote "tool_output_truncated")] fun f hf => by
    rw [List.mem_singleton.mp hf]
    exact .string _ (quoted_quote _)

theorem value_truncatedOutput (preview : String) : JsonGrammar.Value (truncatedOutput preview) :=
  JsonGrammar.value_members Json.quote quoted_quote
    [("error", Json.quote "tool_output_truncated"), ("preview", Json.quote preview)] fun f hf => by
      rcases List.mem_pair.mp hf with rfl | rfl
      · exact .string _ (quoted_quote _)
      · exact .string _ (quoted_quote _)

/-! ## The bisection -/

theorem size_truncatedOutput (preview : String) :
    (truncatedOutput preview).utf8ByteSize = (truncatedOutput "").utf8ByteSize + escapedSize preview := by
  have hempty : escapedSize "" = 0 := by decide
  simp only [truncatedOutput, String.intercalate_cons_cons, String.intercalate_singleton, String.utf8ByteSize_append,
    size_quote, hempty]
  omega

/-- A longer preview takes no fewer bytes. -/
theorem escapedSize_mono {s t : String} (h : s.toList <+: t.toList) : escapedSize s ≤ escapedSize t := by
  obtain ⟨rest, hrest⟩ := h
  unfold escapedSize
  rw [← hrest, List.map_append, List.map_append, List.sum_append]
  omega

/-- The preview cut at a byte fits. -/
def Fits (maxBytes : Nat) (output : String) (midpoint : Int) : Prop :=
  (truncatedOutput (cutBytes midpoint.toNat output)).utf8ByteSize ≤ maxBytes

theorem Fits.fewer {maxBytes : Nat} {output : String} {i j : Int} (h : Fits maxBytes output j) (hle : i ≤ j) :
    Fits maxBytes output i := by
  have hsize := escapedSize_mono (cutBytes_mono (show i.toNat ≤ j.toNat by omega) output)
  unfold Fits at h ⊢
  rw [size_truncatedOutput] at h ⊢
  omega

/-- The bisection finds the last byte at which the preview fits, or leaves what it began with. -/
theorem longestPreview_last (maxBytes : Nat) (output : String) (lower upper : Int) (best : String) :
    (longestPreview maxBytes output lower upper best = best ∧ ∀ i, lower ≤ i → i ≤ upper → ¬Fits maxBytes output i) ∨
      ∃ last, lower ≤ last ∧ last ≤ upper ∧ Fits maxBytes output last ∧
        longestPreview maxBytes output lower upper best = truncatedOutput (cutBytes last.toNat output) ∧
        ∀ i, last < i → i ≤ upper → ¬Fits maxBytes output i := by
  induction lower, upper, best using longestPreview.induct maxBytes output with
  | case1 lower upper best hle midpoint candidate hfits ih =>
    have hmid : lower ≤ midpoint ∧ midpoint ≤ upper := by
      simp only [midpoint]
      omega
    rw [longestPreview, dif_pos hle]
    simp only
    rw [if_pos hfits]
    right
    rcases ih with ⟨hbest, hnone⟩ | ⟨last, hlow, hhigh, hlast, htext, hnone⟩
    · refine ⟨midpoint, hmid.1, hmid.2, hfits, hbest, fun i hi hu => hnone i (by omega) hu⟩
    · exact ⟨last, by omega, hhigh, hlast, htext, hnone⟩
  | case2 lower upper best hle midpoint candidate hlong ih =>
    have hmid : lower ≤ midpoint ∧ midpoint ≤ upper := by
      simp only [midpoint]
      omega
    -- no byte from the midpoint on fits
    have hbeyond : ∀ i, midpoint ≤ i → ¬Fits maxBytes output i := fun i hi hfits => hlong (hfits.fewer hi)
    rw [longestPreview, dif_pos hle]
    simp only
    rw [if_neg hlong]
    rcases ih with ⟨hbest, hnone⟩ | ⟨last, hlow, hhigh, hlast, htext, hnone⟩
    · left
      refine ⟨hbest, fun i hi hu => ?_⟩
      by_cases hlt : i < midpoint
      · exact hnone i hi (by omega)
      · exact hbeyond i (by omega)
    · right
      refine ⟨last, hlow, by omega, hlast, htext, fun i hi hu => ?_⟩
      by_cases hlt : i < midpoint
      · exact hnone i hi (by omega)
      · exact hbeyond i (by omega)
  | case3 lower upper best hgt =>
    left
    rw [longestPreview, dif_neg hgt]
    exact ⟨rfl, fun i hi hu => absurd (hi.trans hu) hgt⟩

/-- A preview that fits, with no longer one that does. -/
def LongestPreview (maxBytes : Nat) (output preview : String) : Prop :=
  preview.toList <+: output.toList ∧ (truncatedOutput preview).utf8ByteSize ≤ maxBytes ∧
    ∀ other : String, other.toList <+: output.toList → (truncatedOutput other).utf8ByteSize ≤ maxBytes →
      other.toList <+: preview.toList

/-- A prefix is what its own bytes cut out. -/
theorem cutBytes_prefix_size {s t : String} (h : s.toList <+: t.toList) : cutBytes s.utf8ByteSize t = s := by
  have hlong := fittingChars_longest h (charsSize_eq s).ge
  have hsize := fittingChars_le s.utf8ByteSize t.toList
  obtain ⟨rest, hrest⟩ := hlong
  rw [← hrest, charsSize_append, ← charsSize_eq] at hsize
  have hnil : rest = [] := by
    cases rest with
    | nil => rfl
    | cons c rest =>
      have hpos := c.utf8Size_pos
      have hzero : charsSize (c :: rest) = 0 := by omega
      simp only [charsSize, List.map_cons, List.sum_cons] at hzero
      omega
  rw [cutBytes, ← hrest, hnil, List.append_nil, String.ofList_toList]

/-- The bisection over all the bytes finds the longest preview if the empty one fits. -/
theorem longestPreview_longest (maxBytes : Nat) (output : String) (best : String)
    (h : (truncatedOutput "").utf8ByteSize ≤ maxBytes) : ∃ preview,
      longestPreview maxBytes output 0 output.utf8ByteSize best = truncatedOutput preview ∧
        LongestPreview maxBytes output preview := by
  rcases longestPreview_last maxBytes output 0 output.utf8ByteSize best with ⟨-, hnone⟩ | ⟨last, -, -, hlast, htext, hnone⟩
  · have hzero : Fits maxBytes output 0 := by
      have hcut : cutBytes 0 output = "" := by
        have hnil := cutBytes_le 0 output
        rw [Nat.le_zero, String.utf8ByteSize_eq_zero_iff] at hnil
        exact hnil
      show (truncatedOutput (cutBytes 0 output)).utf8ByteSize ≤ maxBytes
      rwa [hcut]
    exact absurd hzero (hnone 0 (Int.le_refl 0) (by omega))
  · refine ⟨cutBytes last.toNat output, htext, cutBytes_begins _ _, hlast, ?_⟩
    intro other hother hfits
    have hcut := cutBytes_prefix_size hother
    have hwithin : (other.utf8ByteSize : Int) ≤ last := by
      by_contra hbeyond
      refine hnone other.utf8ByteSize (by omega) ?_ ?_
      · have hsize := (fittingChars_le output.utf8ByteSize output.toList)
        obtain ⟨rest, hrest⟩ := hother
        rw [charsSize_eq other, charsSize_eq output, ← hrest, charsSize_append]
        omega
      · show (truncatedOutput (cutBytes (other.utf8ByteSize : Int).toNat output)).utf8ByteSize ≤ maxBytes
        rwa [Int.toNat_natCast, hcut]
    have hmono := cutBytes_mono (show other.utf8ByteSize ≤ last.toNat by omega) output
    rwa [hcut] at hmono

/-- The bisection leaves what it began with if not even the empty preview fits. -/
theorem longestPreview_none {maxBytes : Nat} (output best : String) (h : maxBytes < (truncatedOutput "").utf8ByteSize) :
    longestPreview maxBytes output 0 output.utf8ByteSize best = best := by
  rcases longestPreview_last maxBytes output 0 output.utf8ByteSize best with ⟨hbest, -⟩ | ⟨last, -, -, hlast, -, -⟩
  · exact hbest
  · unfold Fits at hlast
    rw [size_truncatedOutput] at hlast
    omega

/-! ## `_canonical_json` -/

theorem canonicalJson_eq {value : ToolValue} {output : String} (h : value.dumps P = some output) (maxBytes : Nat) :
    canonicalJson P value maxBytes = some
      (if output.utf8ByteSize ≤ maxBytes then output
      else if bareError.utf8ByteSize > maxBytes then (if maxBytes ≥ 1 then "0" else "")
      else longestPreview maxBytes output 0 output.utf8ByteSize bareError) := by
  unfold canonicalJson
  rw [h]
  rfl

/-- An interpreter whose floats are all written as zero. -/
def zeroPython : Python where
  float _ := "0.0"
  plain := plain_zero
  repr _ := "None"
  loads _ := none

theorem zeroPython_number (x : ℚ) : JsonGrammar.Number (zeroPython.float x).toList := by
  have htext : (zeroPython.float x).toList = ['0', '.', '0'] := by
    show ("0.0" : String).toList = _
    decide
  rw [htext]
  exact ⟨[], ['0'], ['.', '0'], [], rfl, Or.inl rfl, ⟨by decide, List.all_iff_forall_prop.mp (by decide)⟩, fun _ => rfl,
    Or.inr ⟨['0'], rfl, by decide, List.all_iff_forall_prop.mp (by decide)⟩, Or.inl rfl⟩

/-- Forty characters of two bytes each. -/
def accents : ToolValue := .str (String.ofList (List.replicate 40 'é'))

end LilTweak.Agent
