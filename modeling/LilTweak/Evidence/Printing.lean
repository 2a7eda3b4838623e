import LilTweak.Evidence.ApplyPatch
import Mathlib.Algebra.Order.Ring.Nat

/-!
# Printed diffs read back

A file diff printed line by line is read back as itself: the ranges, the counted
bodies with their notes, the names and the `/dev/null` sides.
-/

namespace LilTweak.Evidence

open LilTweak.Lib

/-! ## Printing -/

/-- The byte a line of a hunk starts with. -/
def Marker.byte (m : Marker) : UInt8 := UInt8.ofNat m.char.toNat

/-- A line of a hunk; a line without a line feed is followed by a note. -/
def printLine (e : Marker × Bytes) : List Bytes :=
  if e.2.getLast? = some 10 then [e.1.byte :: e.2]
  else [e.1.byte :: (e.2 ++ [10]), encodeUtf8 noNewline]

/-- A range of an `@@` line. -/
def rangeText (start length : Nat) : Text :=
  if length = 1 then Nat.toDigits 10 start
  else Nat.toDigits 10 start ++ ',' :: Nat.toDigits 10 length

/-- The `@@` line of a hunk. -/
def Hunk.header (h : Hunk) : Text :=
  "@@ -".toList ++ rangeText h.oldStart h.oldLen ++ " +".toList ++
    rangeText h.newStart h.newLen ++ " @@\n".toList

def printHunk (h : Hunk) : List Bytes := encodeUtf8 h.header :: h.body.flatMap printLine

/-- A `---` or `+++` line. -/
def nameLine (mark side : Text) (name : Option String) : Text :=
  mark ++ (match name with
    | none => "/dev/null".toList
    | some name => side ++ name.toList) ++ ['\n']

def printFile (d : FileDiff) : List Bytes :=
  encodeUtf8 (nameLine "--- ".toList "a/".toList d.old) ::
    encodeUtf8 (nameLine "+++ ".toList "b/".toList d.new) :: d.hunks.flatMap printHunk

/-- The counts of a hunk are those of its body, and a line feed only ends a line. -/
structure Hunk.Valid (h : Hunk) : Prop where
  old : h.oldLen = (h.body.map fun e => e.1.old).sum
  new : h.newLen = (h.body.map fun e => e.1.new).sum
  lines : ∀ e ∈ h.body, (10 : UInt8) ∉ e.2.dropLast

/-- A file diff with hunks, all valid, and names that stay on their line. -/
structure FileDiff.Valid (d : FileDiff) : Prop where
  hunks : d.hunks ≠ []
  valid : ∀ h ∈ d.hunks, h.Valid
  old : ∀ name ∈ d.old, '\n' ∉ name.toList
  new : ∀ name ∈ d.new, '\n' ∉ name.toList

/-! ## Prefixes, numbers and ranges -/

section
variable {α : Type*} [DecidableEq α]

theorem stripPrefix_append (front text : List α) : stripPrefix front (front ++ text) = some text := by
  simp [stripPrefix]

theorem stripSuffix_append (text back : List α) : stripSuffix back (text ++ back) = some text := by
  simp [stripSuffix]

end

theorem takeWhile_digits (n : Nat) (rest : Text) (h : ∀ c ∈ rest.head?, c.isDigit = false) :
    (Nat.toDigits 10 n ++ rest).takeWhile Char.isDigit = Nat.toDigits 10 n ∧
      (Nat.toDigits 10 n ++ rest).dropWhile Char.isDigit = rest := by
  have hd : ∀ c ∈ Nat.toDigits 10 n, c.isDigit = true := fun c hc =>
    Nat.isDigit_of_mem_toDigits (by omega) (by omega) hc
  constructor
  · rw [List.takeWhile_append_of_pos hd]
    cases rest with
    | nil => simp
    | cons c rest => rw [List.takeWhile_cons_of_neg (by simp [h c rfl]), List.append_nil]
  · rw [List.dropWhile_append_of_pos hd]
    cases rest with
    | nil => rfl
    | cons c rest => rw [List.dropWhile_cons_of_neg (by simp [h c rfl])]

theorem readNumber_toDigits (n : Nat) (rest : Text) (h : ∀ c ∈ rest.head?, c.isDigit = false) :
    readNumber (Nat.toDigits 10 n ++ rest) = some (n, rest) := by
  obtain ⟨h1, h2⟩ := takeWhile_digits n rest h
  obtain ⟨d, ds, hds⟩ := List.exists_cons_of_ne_nil (Nat.toDigits_ne_nil (n := n) (b := 10))
  unfold readNumber
  rw [h1, h2, hds]
  simp only
  rw [← hds, Nat.ofDigitChars_ten_toDigits]

theorem readRange_rangeText (start length : Nat) (rest : Text) :
    readRange (rangeText start length ++ ' ' :: rest) = some ((start, length), ' ' :: rest) := by
  have hspace : ∀ c ∈ (' ' :: rest).head?, c.isDigit = false := by
    intro c hc
    obtain rfl : ' ' = c := by simpa using hc
    rfl
  unfold rangeText
  split
  · next hone =>
    unfold readRange
    rw [readNumber_toDigits start _ hspace, hone]
    rfl
  · unfold readRange
    rw [List.append_assoc, List.cons_append, readNumber_toDigits start _ (by
      intro c hc
      obtain rfl : ',' = c := by simpa using hc
      rfl)]
    simp only
    rw [readNumber_toDigits length _ hspace]

/-! ## ASCII lines -/

/-- An ASCII text is read off its bytes as it is. -/
theorem latin1_encodeUtf8 {t : Text} (h : ∀ c ∈ t, c.toNat < 128) :
    (encodeUtf8 t).map (fun b => Char.ofNat b.toNat) = t := by
  induction t with
  | nil => rfl
  | cons c t ih =>
    have hc := h c List.mem_cons_self
    rw [encodeUtf8_ascii hc, List.map_cons, ih fun d hd => h d (List.mem_cons_of_mem _ hd)]
    have hval : (UInt8.ofNat c.toNat).toNat = c.toNat := by
      simp only [UInt8.toNat_ofNat']
      omega
    rw [hval, Char.ofNat_toNat]

theorem digit_ascii {c : Char} (h : c.isDigit = true) : c.toNat < 128 := by
  simp only [Char.isDigit, Bool.and_eq_true, decide_eq_true_eq] at h
  have := h.2
  simp only [UInt32.le_iff_toNat_le] at this
  simp only [Char.toNat]
  have h57 : '9'.val.toNat = 57 := rfl
  omega

theorem mem_rangeText {start length : Nat} {c : Char} (h : c ∈ rangeText start length) :
    c.isDigit = true ∨ c = ',' := by
  have hdigit : ∀ n, c ∈ Nat.toDigits 10 n → c.isDigit = true := fun n hn =>
    Nat.isDigit_of_mem_toDigits (by omega) (by omega) hn
  unfold rangeText at h
  split at h
  · exact .inl (hdigit _ h)
  · rcases List.mem_append.mp h with h | h
    · exact .inl (hdigit _ h)
    · rcases List.mem_cons.mp h with rfl | h
      · exact .inr rfl
      · exact .inl (hdigit _ h)

/-- The characters of an `@@` line. -/
theorem mem_header {h : Hunk} {c : Char} (hc : c ∈ h.header) :
    c.isDigit = true ∨ c ∈ "@- +,\n".toList := by
  have hfront : "@@ -".toList ⊆ "@- +,\n".toList := by decide
  have hmid : " +".toList ⊆ "@- +,\n".toList := by decide
  have hback : " @@\n".toList ⊆ "@- +,\n".toList := by decide
  have hrange : ∀ start length, c ∈ rangeText start length →
      c.isDigit = true ∨ c ∈ "@- +,\n".toList := by
    intro start length hr
    rcases mem_rangeText hr with hd | rfl
    · exact .inl hd
    · exact .inr (by decide)
  unfold Hunk.header at hc
  simp only [List.mem_append] at hc
  rcases hc with (((hc | hc) | hc) | hc) | hc
  · exact .inr (hfront hc)
  · exact hrange _ _ hc
  · exact .inr (hmid hc)
  · exact hrange _ _ hc
  · exact .inr (hback hc)

theorem header_ascii (h : Hunk) : ∀ c ∈ h.header, c.toNat < 128 := by
  have hother := List.all_eq_true.mp
    (show ("@- +,\n".toList.all fun c => c.toNat < 128) = true by decide)
  intro c hc
  rcases mem_header hc with hd | ho
  · exact digit_ascii hd
  · exact of_decide_eq_true (hother c ho)

theorem readHunkHeader_header (h : Hunk) :
    readHunkHeader (encodeUtf8 h.header) =
      some ((h.oldStart, h.oldLen), h.newStart, h.newLen) := by
  have h1 : h.header = "@@ -".toList ++ (rangeText h.oldStart h.oldLen ++ ' ' ::
      ('+' :: (rangeText h.newStart h.newLen ++ ' ' :: "@@\n".toList))) := by
    unfold Hunk.header
    simp
  have h2 : ∀ t : Text, ' ' :: '+' :: t = " +".toList ++ t := fun t => rfl
  simp only [readHunkHeader, latin1_encodeUtf8 (header_ascii h)]
  rw [h1, stripPrefix_append]
  simp only [Option.bind_eq_bind, Option.bind_some]
  rw [readRange_rangeText]
  simp only [Option.bind_some]
  rw [h2, stripPrefix_append]
  simp only [Option.bind_some]
  rw [readRange_rangeText]
  rfl

/-! ## Bodies -/

theorem markerOf_byte (m : Marker) : markerOf m.byte = some m := by cases m <;> rfl

theorem marker_line_ne_note (m : Marker) (content : Bytes) :
    m.byte :: content ≠ encodeUtf8 noNewline := by
  have hhead : (encodeUtf8 noNewline).head? = some 92 := by decide
  intro h
  have hm : (m.byte :: content).head? = some 92 := h ▸ hhead
  cases m <;> exact absurd hm (by simp [Marker.byte, Marker.char])

theorem marker_counts (m : Marker) : 0 < m.old + m.new := by cases m <;> decide

theorem readBody_cons (r s : Nat) (body : List (Marker × Bytes)) (line : Bytes) (rest : List Bytes) :
    readBody r s body (line :: rest) =
      if line = encodeUtf8 noNewline then
        match body with
        | (m, content) :: body =>
          match stripSuffix [10] content with
          | some content => readBody r s ((m, content) :: body) rest
          | none => none
        | [] => none
      else if r = 0 ∧ s = 0 then some (body.reverse, line :: rest)
      else match line with
        | [] => none
        | c :: content =>
          match markerOf c with
          | some m =>
            if m.old ≤ r ∧ m.new ≤ s ∧ content.getLast? = some 10 then
              readBody (r - m.old) (s - m.new) ((m, content) :: body) rest
            else none
          | none => none :=
  readBody.eq_def r s body (line :: rest)

/-- A counted body is read up to its last line. -/
theorem readBody_print (body : List (Marker × Bytes)) :
    ∀ (acc : List (Marker × Bytes)) (rest : List Bytes),
      rest.head? ≠ some (encodeUtf8 noNewline) →
      readBody (body.map fun e => e.1.old).sum (body.map fun e => e.1.new).sum acc
        (body.flatMap printLine ++ rest) = some (acc.reverse ++ body, rest) := by
  induction body with
  | nil =>
    intro acc rest hrest
    cases rest with
    | nil => simp [readBody]
    | cons line rest =>
      have hne : line ≠ encodeUtf8 noNewline := fun h => hrest (by simp [h])
      simp [readBody, hne]
  | cons e body ih =>
    intro acc rest hrest
    obtain ⟨m, content⟩ := e
    have hpos := marker_counts m
    simp only [List.map_cons, List.sum_cons, List.flatMap_cons, List.append_assoc]
    have hcount : ¬(m.old + (body.map fun e => e.1.old).sum = 0 ∧
        m.new + (body.map fun e => e.1.new).sum = 0) := by omega
    -- One marked line that ends in a line feed moves to the body.
    have hone : ∀ (c : Bytes) (tail : List Bytes), c.getLast? = some 10 →
        readBody (m.old + (body.map fun e => e.1.old).sum) (m.new + (body.map fun e => e.1.new).sum)
          acc ((m.byte :: c) :: tail) =
        readBody (body.map fun e => e.1.old).sum (body.map fun e => e.1.new).sum
          ((m, c) :: acc) tail := by
      intro c tail hc
      rw [readBody_cons, if_neg (marker_line_ne_note m c), if_neg hcount]
      simp only [markerOf_byte]
      rw [if_pos ⟨by omega, by omega, hc⟩, Nat.add_sub_cancel_left, Nat.add_sub_cancel_left]
    by_cases hlast : content.getLast? = some 10
    · have hprint : printLine (m, content) = [m.byte :: content] := if_pos hlast
      rw [hprint, List.singleton_append, hone content _ hlast, ih _ _ hrest]
      simp
    · have hprint : printLine (m, content) = [m.byte :: (content ++ [10]), encodeUtf8 noNewline] :=
        if_neg hlast
      rw [hprint, List.cons_append, List.singleton_append, hone (content ++ [10]) _ (by simp)]
      rw [readBody_cons, if_pos rfl]
      simp only [stripSuffix_append]
      rw [ih _ _ hrest]
      simp

/-! ## Hunks and files -/

/-- A line that ends a list of hunks. -/
def EndsHunks (rest : List Bytes) : Prop :=
  ∀ line ∈ rest.head?, readHunkHeader line = none ∧ line ≠ encodeUtf8 noNewline

theorem header_ne_note (h : Hunk) : encodeUtf8 h.header ≠ encodeUtf8 noNewline := by
  intro he
  have hn : readHunkHeader (encodeUtf8 noNewline) = none := by decide
  rw [← he, readHunkHeader_header] at hn
  cases hn

theorem readHunks_print (hs : List Hunk) : ∀ (n : Nat) (rest : List Bytes), hs.length < n →
    (∀ h ∈ hs, h.Valid) → EndsHunks rest →
    readHunks n (hs.flatMap printHunk ++ rest) = some (hs, rest) := by
  induction hs with
  | nil =>
    intro n rest hn _ hrest
    obtain ⟨n, rfl⟩ : ∃ k, n = k + 1 := ⟨n - 1, by simp only [List.length_nil] at hn; omega⟩
    cases rest with
    | nil => rfl
    | cons line rest =>
      simp only [List.flatMap_nil, List.nil_append, readHunks, (hrest line rfl).1]
  | cons h hs ih =>
    intro n rest hn hvalid hrest
    obtain ⟨n, rfl⟩ : ∃ k, n = k + 1 := ⟨n - 1, by simp only [List.length_cons] at hn; omega⟩
    have hv := hvalid h List.mem_cons_self
    have hnote : (hs.flatMap printHunk ++ rest).head? ≠ some (encodeUtf8 noNewline) := by
      cases hs with
      | nil =>
        intro hh
        simp only [List.flatMap_nil, List.nil_append] at hh
        exact (hrest _ hh).2 rfl
      | cons h' hs =>
        intro hh
        simp only [List.flatMap_cons, printHunk, List.cons_append, List.head?_cons,
          Option.some.injEq] at hh
        exact header_ne_note h' hh
    rw [List.flatMap_cons, List.append_assoc, printHunk, List.cons_append, readHunks,
      readHunkHeader_header]
    simp only
    rw [hv.old, hv.new, readBody_print _ _ _ hnote]
    simp only [List.reverse_nil, List.nil_append]
    rw [ih n rest (by simp only [List.length_cons] at hn; omega)
      (fun k hk => hvalid k (List.mem_cons_of_mem _ hk)) hrest, Option.map_some, ← hv.old, ← hv.new]

theorem readName_nameLine {mark side : Text} {name : Option String}
    (hside : ∀ text : Text, side ++ text ≠ "/dev/null".toList) :
    readName mark side (encodeUtf8 (nameLine mark side name)) = some name := by
  simp only [readName, decodeUtf8_encodeUtf8, Option.bind_eq_bind, Option.bind_some, nameLine,
    List.append_assoc, stripPrefix_append]
  cases name with
  | none =>
    rw [stripSuffix_append]
    rfl
  | some name =>
    rw [stripSuffix_append]
    simp only [Option.bind_some]
    rw [if_neg (hside _), stripPrefix_append]
    simp

theorem side_ne_null (c : Char) (hc : c ≠ '/') (text : Text) :
    c :: '/' :: text ≠ "/dev/null".toList := by
  intro h
  exact hc (List.cons.inj h).1

/-- The line in front of a file diff ends the hunks of the one before it. -/
theorem endsHunks_print (ds : List FileDiff) : EndsHunks (ds.flatMap printFile) := by
  cases ds with
  | nil => intro line h; cases h
  | cons d ds =>
    intro line h
    obtain rfl : encodeUtf8 (nameLine "--- ".toList "a/".toList d.old) = line := by
      simpa [printFile] using h
    have hcons : encodeUtf8 (nameLine "--- ".toList "a/".toList d.old) =
        45 :: encodeUtf8 ("-- ".toList ++ (match d.old with
          | none => "/dev/null".toList
          | some name => "a/".toList ++ name.toList) ++ ['\n']) :=
      encodeUtf8_ascii (c := '-') (by decide) _
    rw [hcons]
    constructor
    · simp only [readHunkHeader, List.map_cons]
      rfl
    · intro he
      have hhead : (encodeUtf8 noNewline).head? = some 92 := by decide
      rw [← he, List.head?_cons] at hhead
      exact absurd hhead (by decide)

theorem readFiles_print (ds : List FileDiff) : ∀ n, ds.length ≤ n → (∀ d ∈ ds, d.Valid) →
    readFiles n (ds.flatMap printFile) = some ds := by
  induction ds with
  | nil => intro n _ _; cases n <;> rfl
  | cons d ds ih =>
    intro n hn hvalid
    obtain ⟨n, rfl⟩ : ∃ k, n = k + 1 := ⟨n - 1, by simp only [List.length_cons] at hn; omega⟩
    have hv := hvalid d List.mem_cons_self
    have hcount : d.hunks.length <
        (d.hunks.flatMap printHunk ++ ds.flatMap printFile).length + 1 := by
      have hle : ∀ hs : List Hunk, hs.length ≤ (hs.flatMap printHunk).length := by
        intro hs
        induction hs with
        | nil => simp
        | cons h hs ih' =>
          rw [List.flatMap_cons, List.length_append, List.length_cons, printHunk, List.length_cons]
          omega
      have := hle d.hunks
      rw [List.length_append]
      omega
    rw [List.flatMap_cons, printFile, List.cons_append, List.cons_append, readFiles]
    rw [readName_nameLine (side_ne_null 'a' (by decide)),
      readName_nameLine (side_ne_null 'b' (by decide))]
    simp only [Option.bind_eq_bind, Option.bind_some]
    rw [readHunks_print _ _ _ hcount hv.valid (endsHunks_print ds)]
    simp only [Option.bind_some]
    rw [ih n (by simp only [List.length_cons] at hn; omega)
      fun k hk => hvalid k (List.mem_cons_of_mem _ hk)]
    simp [hv.hunks]

/-! ## Physical lines -/

/-- A line with its line feed and no other. -/
def WholeLine (l : Bytes) : Prop := ∃ x, l = x ++ [10] ∧ (10 : UInt8) ∉ x

theorem physicalLines_flatten (ls : List Bytes) (h : ∀ l ∈ ls, WholeLine l) :
    physicalLines ls.flatten = ls := by
  induction ls with
  | nil => rfl
  | cons l ls ih =>
    obtain ⟨x, rfl, hx⟩ := h l List.mem_cons_self
    have hrest : physicalLines ls.flatten = ls := ih fun k hk => h k (List.mem_cons_of_mem _ hk)
    have hten : ∀ tail : Bytes, physicalLines (10 :: tail) = [10] :: physicalLines tail := by
      intro tail
      rw [physicalLines, splitAfter, if_pos (by rfl)]
      rfl
    rw [List.flatten_cons, List.append_assoc, List.singleton_append]
    by_cases hnil : x = []
    · subst hnil
      rw [List.nil_append, hten, hrest, List.nil_append]
    · rw [physicalLines, splitAfter_append (q := fun c => c == 10) hnil (by
        intro c hc
        rw [beq_eq_false_iff_ne]
        rintro rfl
        exact hx hc)]
      rw [← physicalLines, hten, hrest]

theorem wholeLine_encodeUtf8 {t : Text} (h : '\n' ∉ t) : WholeLine (encodeUtf8 (t ++ ['\n'])) :=
  ⟨encodeUtf8 t, by rw [encodeUtf8_append]; rfl,
    fun hm => h ((mem_encodeUtf8_ascii (n := '\n') (by decide) t).mp hm)⟩

theorem wholeLine_note : WholeLine (encodeUtf8 noNewline) :=
  wholeLine_encodeUtf8 (t := "\\ No newline at end of file".toList) (by decide)

theorem wholeLine_printLine {e : Marker × Bytes} (he : (10 : UInt8) ∉ e.2.dropLast) :
    ∀ l ∈ printLine e, WholeLine l := by
  intro l hl
  have hm : (10 : UInt8) ≠ e.1.byte := by cases e.1 <;> decide
  unfold printLine at hl
  split at hl
  · next hlast =>
    obtain rfl := List.mem_singleton.mp hl
    refine ⟨e.1.byte :: e.2.dropLast, ?_, ?_⟩
    · rw [List.cons_append, List.dropLast_append_getLast?  10 hlast]
    · simp only [List.mem_cons, not_or]
      exact ⟨hm, he⟩
  · next hlast =>
    rcases List.mem_cons.mp hl with rfl | hl
    · refine ⟨e.1.byte :: e.2, by simp, ?_⟩
      simp only [List.mem_cons, not_or]
      refine ⟨hm, fun h => ?_⟩
      have hne : e.2 ≠ [] := List.ne_nil_of_mem h
      rw [← List.dropLast_append_getLast hne] at h
      rcases List.mem_append.mp h with h | h
      · exact he h
      · exact hlast (by rw [List.getLast?_eq_some_getLast hne, List.mem_singleton.mp h])
    · obtain rfl := List.mem_singleton.mp hl
      exact wholeLine_note

theorem header_wholeLine (h : Hunk) : WholeLine (encodeUtf8 h.header) := by
  have hsplit : h.header = ("@@ -".toList ++ rangeText h.oldStart h.oldLen ++ " +".toList ++
      rangeText h.newStart h.newLen ++ " @@".toList) ++ ['\n'] := by
    unfold Hunk.header
    simp
  have hdigits : ∀ start length, '\n' ∉ rangeText start length := by
    intro start length hm
    rcases mem_rangeText hm with hd | hd <;> exact absurd hd (by decide)
  rw [hsplit]
  refine wholeLine_encodeUtf8 ?_
  simp only [List.mem_append, not_or]
  exact ⟨⟨⟨⟨by decide, hdigits _ _⟩, by decide⟩, hdigits _ _⟩, by decide⟩

theorem nameLine_wholeLine {mark side : Text} {name : Option String} (hmark : '\n' ∉ mark)
    (hside : '\n' ∉ side) (hname : ∀ n ∈ name, '\n' ∉ n.toList) :
    WholeLine (encodeUtf8 (nameLine mark side name)) := by
  refine wholeLine_encodeUtf8 ?_
  cases name with
  | none =>
    simp only [List.mem_append, not_or]
    exact ⟨hmark, by decide⟩
  | some n =>
    simp only [List.mem_append, not_or]
    exact ⟨hmark, hside, hname n rfl⟩

theorem wholeLine_printFile {d : FileDiff} (hd : d.Valid) : ∀ l ∈ printFile d, WholeLine l := by
  intro l hl
  simp only [printFile, List.mem_cons, List.mem_flatMap] at hl
  rcases hl with rfl | rfl | ⟨h, hh, hl⟩
  · exact nameLine_wholeLine (by decide) (by decide) hd.old
  · exact nameLine_wholeLine (by decide) (by decide) hd.new
  · rcases List.mem_cons.mp hl with rfl | hl
    · exact header_wholeLine h
    · obtain ⟨e, he, hl⟩ := List.mem_flatMap.mp hl
      exact wholeLine_printLine ((hd.valid h hh).lines e he) l hl

/-- Printed file diffs are read back and applied one after the other. -/
theorem applyPatch_print {ds : List FileDiff} (hds : ∀ d ∈ ds, d.Valid) (files : Dict String Bytes) :
    applyPatch (ds.flatMap printFile).flatten files = ds.foldlM applyFile files := by
  have hlines : physicalLines (ds.flatMap printFile).flatten = ds.flatMap printFile := by
    refine physicalLines_flatten _ fun l hl => ?_
    obtain ⟨d, hd, hl⟩ := List.mem_flatMap.mp hl
    exact wholeLine_printFile (hds d hd) l hl
  have hcount : ds.length ≤ (ds.flatMap printFile).length := by
    clear hlines hds
    induction ds with
    | nil => simp
    | cons d ds ih =>
      simp only [List.length_cons, List.flatMap_cons, List.length_append, printFile]
      omega
  rw [applyPatch, hlines, readFiles_print ds _ hcount hds, Option.bind_some]

end LilTweak.Evidence
