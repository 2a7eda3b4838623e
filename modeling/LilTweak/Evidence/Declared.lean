import LilTweak.Evidence.PatchLines
import Mathlib

/-!
# Reading the headers back

The agent's reader counts its way through every hunk the patch builder prints, so that it sees
each header of the patch and nothing but the headers.
-/

namespace LilTweak.Evidence

open LilTweak.Lib LilTweak.Sources

/-! ## The counted lines of a hunk -/

/-- The lines of marked lines, as they are read back. -/
def readBack (marks : List (Marker × Text)) : List Text :=
  marks.flatMap fun e => (pieces (e.1.char :: e.2)).map chomp

/-- The first line that follows is not a note. -/
def NoNote (rest : List Text) : Prop := ∀ line ∈ rest.head?, startsWith "\\ No newline" line = false

theorem note_starts : startsWith "\\ No newline" (chomp noNewline) = true := by decide

theorem marker_no_note (m : Marker) (body : Text) : startsWith "\\ No newline" (m.char :: body) = false := by
  cases m <;> rfl

theorem readCounted_cons (seen : Bool) (old new : Nat) (line : Text) (rest : List Text) :
    readCounted seen old new (line :: rest) =
      if seen = true ∧ startsWith "\\ No newline" line = true then readCounted false old new rest
      else if old = 0 ∧ new = 0 then some (line :: rest)
      else
        match line with
        | ' ' :: _ => if old = 0 ∨ new = 0 then none else readCounted true (old - 1) (new - 1) rest
        | '-' :: _ => if old = 0 then none else readCounted true (old - 1) new rest
        | '+' :: _ => if new = 0 then none else readCounted true old (new - 1) rest
        | _ => none :=
  readCounted.eq_def seen old new (line :: rest)

theorem readCounted_nil (seen : Bool) {rest : List Text} (h : NoNote rest) :
    readCounted seen 0 0 rest = some rest := by
  cases rest with
  | nil => cases seen <;> rfl
  | cons line rest =>
    have hline : startsWith "\\ No newline" line = false := h line rfl
    rw [readCounted_cons, if_neg (by rw [hline]; simp), if_pos ⟨rfl, rfl⟩]

/-- A marked line is counted. -/
theorem readCounted_line (seen : Bool) (m : Marker) (body : Text) (old new : Nat) (rest : List Text) :
    readCounted seen (m.old + old) (m.new + new) ((m.char :: body) :: rest) = readCounted true old new rest := by
  have hsome : ¬(m.old + old = 0 ∧ m.new + new = 0) := by cases m <;> simp [Marker.old, Marker.new]
  rw [readCounted_cons, if_neg (by rw [marker_no_note]; simp), if_neg hsome]
  cases m with
  | keep =>
    have hboth : ¬(1 + old = 0 ∨ 1 + new = 0) := by omega
    have hold : 1 + old - 1 = old := by omega
    have hnew : 1 + new - 1 = new := by omega
    show (if 1 + old = 0 ∨ 1 + new = 0 then none else readCounted true (1 + old - 1) (1 + new - 1) rest) = _
    rw [if_neg hboth, hold, hnew]
  | drop =>
    have hone : ¬1 + old = 0 := by omega
    have hold : 1 + old - 1 = old := by omega
    show (if 1 + old = 0 then none else readCounted true (1 + old - 1) (0 + new) rest) = _
    rw [if_neg hone, hold, Nat.zero_add]
  | add =>
    have hone : ¬1 + new = 0 := by omega
    have hnew : 1 + new - 1 = new := by omega
    show (if 1 + new = 0 then none else readCounted true (0 + old) (1 + new - 1) rest) = _
    rw [if_neg hone, hnew, Nat.zero_add]

theorem readCounted_note (old new : Nat) (rest : List Text) :
    readCounted true old new (chomp noNewline :: rest) = readCounted false old new rest := by
  rw [readCounted_cons, if_pos ⟨rfl, note_starts⟩]

variable {s t : Text}

/-- The lines of a file that a mark can show. -/
def Shown (s t : Text) (e : Marker × Text) : Prop := e.2 ∈ patchLines s ∨ e.2 ∈ patchLines t

theorem Shown.pieces (hs : '\x00' ∉ s) (ht : '\x00' ∉ t) {e : Marker × Text} (h : Shown s t e) :
    (∀ l ∈ pieces (e.1.char :: e.2), Whole l) ∧
      ∃ body, (Evidence.pieces (e.1.char :: e.2)).map chomp = (e.1.char :: body) :: [] ∨
        (Evidence.pieces (e.1.char :: e.2)).map chomp = (e.1.char :: body) :: [chomp noNewline] := by
  rcases h with h | h
  · exact whole_pieces hs h e.1
  · exact whole_pieces ht h e.1

/-- The reader counts its way through the lines of a hunk. -/
theorem readCounted_readBack (hs : '\x00' ∉ s) (ht : '\x00' ∉ t) (marks : List (Marker × Text))
    (hshown : ∀ e ∈ marks, Shown s t e) {rest : List Text} (hrest : NoNote rest) (seen : Bool) :
    readCounted seen (marks.map fun e => e.1.old).sum (marks.map fun e => e.1.new).sum (readBack marks ++ rest) =
      some rest := by
  induction marks generalizing seen with
  | nil => exact readCounted_nil seen hrest
  | cons e marks ih =>
    have ih' := ih fun x hx => hshown x (List.mem_cons_of_mem _ hx)
    obtain ⟨-, body, hbody⟩ := (hshown e List.mem_cons_self).pieces hs ht
    have hlines : readBack (e :: marks) = (pieces (e.1.char :: e.2)).map chomp ++ readBack marks := rfl
    rw [hlines, List.map_cons, List.map_cons, List.sum_cons, List.sum_cons, List.append_assoc]
    rcases hbody with hbody | hbody
    · rw [hbody, List.cons_append, List.nil_append, readCounted_line]
      exact ih' true
    · rw [hbody, List.cons_append, List.cons_append, List.nil_append, readCounted_line, readCounted_note]
      exact ih' false

/-! ## The header of a hunk -/

theorem decimalValue_digit {c : Char} (h : c.isDigit = true) : decimalValue c = some (c.toNat - 48) := if_pos h

theorem readDecimal_toDigits (n : Nat) (c : Char) (rest : Text) (hc : decimalValue c = none) :
    readDecimal (Nat.toDigits 10 n ++ c :: rest) = some (n, c :: rest) := by
  have hdigits : ∀ d ∈ Nat.toDigits 10 n, d.isDigit = true := fun d hd =>
    Nat.isDigit_of_mem_toDigits (by omega) (by omega) hd
  have hsome : ∀ d ∈ Nat.toDigits 10 n, (decimalValue d).isSome = true := by
    intro d hd
    rw [decimalValue_digit (hdigits d hd)]
    rfl
  have hstop : (decimalValue c).isSome = false := by rw [hc]; rfl
  have htake : (Nat.toDigits 10 n ++ c :: rest).takeWhile (fun c => (decimalValue c).isSome) =
      Nat.toDigits 10 n := by
    rw [List.takeWhile_append_of_pos hsome, List.takeWhile_cons_of_neg (by rw [hstop]; simp), List.append_nil]
  have hdrop : (Nat.toDigits 10 n ++ c :: rest).dropWhile (fun c => (decimalValue c).isSome) = c :: rest := by
    rw [List.dropWhile_append_of_pos hsome, List.dropWhile_cons_of_neg (by rw [hstop]; simp)]
  have hvalue : ∀ (ds : List Char) (k : Nat), (∀ d ∈ ds, d.isDigit = true) →
      ds.foldl (fun n c => 10 * n + (decimalValue c).getD 0) k = Nat.ofDigitChars 10 ds k := by
    intro ds
    induction ds with
    | nil => intro k _; rfl
    | cons d ds ih =>
      intro k hds
      rw [List.foldl_cons, ih _ fun x hx => hds x (List.mem_cons_of_mem _ hx),
        decimalValue_digit (hds d List.mem_cons_self), Nat.ofDigitChars_cons]
      rfl
  obtain ⟨d, ds, hds⟩ := List.exists_cons_of_ne_nil (Nat.toDigits_ne_nil (n := n) (b := 10))
  unfold readDecimal
  rw [htake, hdrop, hds]
  simp only
  rw [← hds, hvalue _ 0 hdigits, Nat.ofDigitChars_ten_toDigits]

theorem readCount_rangeText (start length : Nat) (rest : Text) :
    readCount (rangeText start length ++ ' ' :: rest) = some (length, ' ' :: rest) := by
  have hspace : decimalValue ' ' = none := by decide
  have hcomma : decimalValue ',' = none := by decide
  unfold rangeText readCount
  by_cases hone : length = 1
  · rw [if_pos hone, readDecimal_toDigits start ' ' rest hspace, hone]
    rfl
  · rw [if_neg hone, List.append_assoc, List.cons_append, readDecimal_toDigits start ',' _ hcomma]
    simp only
    exact readDecimal_toDigits length ' ' rest hspace

/-- The header line of a hunk, as it is read back. -/
theorem chomp_header (h : Hunk) : chomp h.header = "@@ -".toList ++ rangeText h.oldStart h.oldLen ++
    " +".toList ++ rangeText h.newStart h.newLen ++ " @@".toList ∧ Whole h.header := by
  have hsplit : h.header = ("@@ -".toList ++ rangeText h.oldStart h.oldLen ++ " +".toList ++
      rangeText h.newStart h.newLen ++ " @@".toList) ++ ['\n'] := by
    unfold Hunk.header
    rw [List.append_assoc _ " @@".toList]
    rfl
  have hclean : ∀ c ∈ "@@ -".toList ++ rangeText h.oldStart h.oldLen ++ " +".toList ++
      rangeText h.newStart h.newLen ++ " @@".toList, lineBreak c = false := by
    have hplain : ∀ c : Char, c.isDigit = true ∨ c ∈ "@ -+,".toList → lineBreak c = false := by
      rintro c (hd | hc)
      · simp only [Char.isDigit, Bool.and_eq_true, decide_eq_true_eq] at hd
        unfold lineBreak
        have hlow : 48 ≤ c.toNat := hd.1
        have hhigh : c.toNat ≤ 57 := hd.2
        simp only [List.contains_cons, List.contains_nil, Bool.or_false, Bool.or_eq_false_iff, beq_eq_false_iff_ne]
        omega
      · have hall : ∀ c ∈ "@ -+,".toList, lineBreak c = false := List.all_iff_forall_prop.mp (by decide)
        exact hall c hc
    intro c hc
    apply hplain
    have hrange : ∀ start length, c ∈ rangeText start length → c.isDigit = true ∨ c ∈ "@ -+,".toList := by
      intro start length hr
      rcases mem_rangeText hr with hd | rfl
      · exact .inl hd
      · exact .inr (by decide)
    have hfront : "@@ -".toList ⊆ "@ -+,".toList := by decide
    have hmid : " +".toList ⊆ "@ -+,".toList := by decide
    have hback : " @@".toList ⊆ "@ -+,".toList := by decide
    simp only [List.mem_append] at hc
    rcases hc with (((hc | hc) | hc) | hc) | hc
    · exact .inr (hfront hc)
    · exact hrange _ _ hc
    · exact .inr (hmid hc)
    · exact hrange _ _ hc
    · exact .inr (hback hc)
  rw [hsplit]
  exact ⟨chomp_feed hclean, whole_feed (by simp) hclean⟩

theorem matchHunkHeader_header (h : Hunk) : matchHunkHeader (chomp h.header) = some (h.oldLen, h.newLen) := by
  have hsplit : chomp h.header = "@@ -".toList ++ (rangeText h.oldStart h.oldLen ++ ' ' ::
      ('+' :: (rangeText h.newStart h.newLen ++ ' ' :: "@@".toList))) := by
    rw [(chomp_header h).1]
    simp
  have hplus : ∀ text : Text, ' ' :: '+' :: text = " +".toList ++ text := fun _ => rfl
  unfold matchHunkHeader
  rw [hsplit, stripPrefix_append]
  simp only [Option.bind_eq_bind, Option.bind_some]
  rw [readCount_rangeText]
  simp only [Option.bind_some]
  rw [hplus, stripPrefix_append]
  simp only [Option.bind_some]
  rw [readCount_rangeText]
  rfl

/-! ## The hunks of a file -/

/-- The groups of the diff between two texts. -/
abbrev groupsOf (s t : Text) : List (List Opcode) := getGroupedOpcodes (patchLines s) (patchLines t) 3

/-- The lines of a hunk below its header, as they are read back. -/
def hunkLines (s t : Text) (g : List Opcode) : List Text :=
  readBack (g.flatMap (opcodeMarks (patchLines s) (patchLines t)))

/-- The lines of a file below its names. -/
def bodyLines (s t : Text) (gs : List (List Opcode)) : List Text :=
  gs.flatMap fun g => chomp (hunkHeader g) :: hunkLines s t g

theorem shown_marks {g : List Opcode} (hg : g ∈ groupsOf s t) {e : Marker × Text}
    (he : e ∈ g.flatMap (opcodeMarks (patchLines s) (patchLines t))) : Shown s t e := by
  have hmem := (getGroupedOpcodes_covers 3).mem_marks g hg e he
  rcases List.mem_append.mp hmem with h | h
  · exact .inl (List.mem_of_mem_take h)
  · exact .inr (List.mem_of_mem_take h)

theorem startsWith_append (front : String) (rest : Text) : startsWith front (front.toList ++ rest) = true := by
  unfold startsWith
  rw [List.isPrefixOf_iff_prefix]
  exact List.prefix_append _ _

/-- A line that starts one way starts no other way. -/
theorem startsWith_other {front other : String} {line : Text} (h : startsWith front line = true)
    (hother : ∀ rest, startsWith other (front.toList ++ rest) = false) : startsWith other line = false := by
  unfold startsWith at h
  rw [List.isPrefixOf_iff_prefix] at h
  obtain ⟨rest, rfl⟩ := h
  exact hother rest

theorem hunkHeader_starts (s t : Text) (g : List Opcode) : startsWith "@@ -" (chomp (hunkHeader g)) = true := by
  rw [hunkHeader_eq (s := s) (t := t), (chomp_header _).1, List.append_assoc, List.append_assoc, List.append_assoc]
  exact startsWith_append _ _

/-- The lines that follow a file begin the next one. -/
def NextFile (rest : List Text) : Prop := ∀ line ∈ rest.head?, startsWith "--- " line = true

theorem NextFile.noNote {rest : List Text} (h : NextFile rest) : NoNote rest := fun line hline =>
  startsWith_other (h line hline) fun _ => rfl

theorem bodyLines_noNote (gs : List (List Opcode)) {rest : List Text} (hrest : NextFile rest) :
    NoNote (bodyLines s t gs ++ rest) := by
  cases gs with
  | nil => exact hrest.noNote
  | cons g gs =>
    intro line hline
    obtain rfl : chomp (hunkHeader g) = line := Option.some.inj hline
    exact startsWith_other (hunkHeader_starts s t g) fun _ => rfl

/-- The header of a hunk counts the lines below it. -/
theorem matchHunkHeader_group {g : List Opcode} (hg : g ∈ groupsOf s t) :
    matchHunkHeader (chomp (hunkHeader g)) =
      some (((g.flatMap (opcodeMarks (patchLines s) (patchLines t))).map fun e => e.1.old).sum,
        ((g.flatMap (opcodeMarks (patchLines s) (patchLines t))).map fun e => e.1.new).sum) := by
  obtain ⟨i, j, i', j', hgne, hchain⟩ := (getGroupedOpcodes_covers 3).group_chain g hg
  rw [hunkHeader_eq (s := s) (t := t), matchHunkHeader_header, hchain.counts.1, hchain.counts.2]
  simp only [hunkOf, hchain.span hgne]

/-- The reader finds every hunk of a file, and stops at the next file. -/
theorem readFileHunks_body (hs : '\x00' ∉ s) (ht : '\x00' ∉ t) {rest : List Text} (hrest : NextFile rest)
    (gs : List (List Opcode)) (hgs : ∀ g ∈ gs, g ∈ groupsOf s t) (n k : Nat)
    (hn : (bodyLines s t gs ++ rest).length ≤ n) :
    readFileHunks n k (bodyLines s t gs ++ rest) = some (k + gs.length, rest) := by
  induction gs generalizing n k with
  | nil =>
    show readFileHunks n k rest = some (k, rest)
    cases rest with
    | nil => cases n <;> rfl
    | cons line rest =>
      have hline : startsWith "--- " line = true := hrest line rfl
      have hpos : rest.length + 1 ≤ n := hn
      obtain ⟨m, rfl⟩ : ∃ m, n = m + 1 := ⟨n - 1, by omega⟩
      show (if startsWith "--- " line then _ else _) = _
      rw [if_pos hline]
  | cons g gs ih =>
    have hg := hgs g List.mem_cons_self
    have hlines : bodyLines s t (g :: gs) ++ rest =
        chomp (hunkHeader g) :: (hunkLines s t g ++ (bodyLines s t gs ++ rest)) := by
      show (chomp (hunkHeader g) :: hunkLines s t g ++ bodyLines s t gs) ++ rest = _
      rw [List.cons_append, List.cons_append, List.append_assoc]
    have hlength : (bodyLines s t gs ++ rest).length + 1 ≤ n := by
      rw [hlines, List.length_cons, List.length_append] at hn
      omega
    obtain ⟨m, rfl⟩ : ∃ m, n = m + 1 := ⟨n - 1, by omega⟩
    have hstart := hunkHeader_starts s t g
    have hminus : ¬startsWith "--- " (chomp (hunkHeader g)) = true := by
      rw [startsWith_other hstart fun _ => rfl]
      exact Bool.false_ne_true
    have hplus : ¬startsWith "+++ " (chomp (hunkHeader g)) = true := by
      rw [startsWith_other hstart fun _ => rfl]
      exact Bool.false_ne_true
    have hcounted := readCounted_readBack hs ht _ (fun e he => shown_marks hg he)
      (bodyLines_noNote (s := s) (t := t) gs hrest) false
    rw [hlines, readFileHunks, if_neg hminus, if_neg hplus, matchHunkHeader_group hg]
    simp only
    rw [hunkLines, hcounted]
    simp only
    rw [ih (fun x hx => hgs x (List.mem_cons_of_mem _ hx)) m (k + 1) (by omega), List.length_cons]
    congr 2
    omega

end LilTweak.Evidence
