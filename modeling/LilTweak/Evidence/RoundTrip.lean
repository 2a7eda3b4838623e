import LilTweak.Evidence.Hunks

/-!
# The diff of one file

What `build_workspace_patch` prints for a file is a printed file diff, and
applying that diff to the old lines gives the new ones, as long as the lines the
hunks count end at line feeds.
-/

namespace LilTweak.Evidence

open LilTweak.Lib

/-! ## Printed lines -/

/-- The bytes one line of the diff becomes. -/
def emitted (line : Text) : Bytes :=
  if '\x00' ∈ line then encodeUtf8 (line.filter (· ≠ '\x00')) ++ encodeUtf8 noNewline
  else encodeUtf8 line

theorem appendBounded_ok {maxBytes : Int} {encoded encoded' : Bytes} {text : Text}
    (h : appendBounded maxBytes encoded text = .ok encoded') :
    encoded' = encoded ++ encodeUtf8 text := by
  unfold appendBounded at h
  split at h
  · cases h
  · exact (Except.ok.inj h).symm

theorem appendLine_ok {maxBytes : Int} {encoded encoded' : Bytes} {line : Text}
    (h : appendLine maxBytes encoded line = .ok encoded') : encoded' = encoded ++ emitted line := by
  unfold appendLine at h
  unfold emitted
  split at h
  · next hnul =>
    cases hfirst : appendBounded maxBytes encoded (line.filter (· ≠ '\x00')) with
    | error e =>
      rw [hfirst] at h
      cases h
    | ok first =>
      rw [hfirst] at h
      have hnote : appendBounded maxBytes first noNewline = .ok encoded' := h
      rw [if_pos hnul, appendBounded_ok hnote, appendBounded_ok hfirst, List.append_assoc]
  · next hnul => rw [if_neg hnul, appendBounded_ok h]

theorem foldlM_appendLine {maxBytes : Int} (lines : List Text) : ∀ {encoded encoded' : Bytes},
    lines.foldlM (appendLine maxBytes) encoded = .ok encoded' →
    encoded' = encoded ++ lines.flatMap emitted := by
  induction lines with
  | nil =>
    intro encoded encoded' h
    rw [List.foldlM_nil] at h
    rw [List.flatMap_nil, List.append_nil]
    exact (Except.ok.inj h).symm
  | cons line lines ih =>
    intro encoded encoded' h
    rw [List.foldlM_cons] at h
    cases hline : appendLine maxBytes encoded line with
    | error e =>
      rw [hline] at h
      cases h
    | ok next =>
      rw [hline] at h
      rw [ih h, appendLine_ok hline, List.flatMap_cons, List.append_assoc]

theorem marker_ne_nul (m : Marker) : m.char ≠ '\x00' := by cases m <;> decide

theorem encodeUtf8_marker (m : Marker) (t : Text) :
    encodeUtf8 (m.char :: t) = m.byte :: encodeUtf8 t :=
  encodeUtf8_ascii (by cases m <;> decide) t

theorem newline_not_mem_encodeUtf8 {t : Text} (h : '\n' ∉ t) : (10 : UInt8) ∉ encodeUtf8 t :=
  fun hm => h ((mem_encodeUtf8_ascii (n := '\n') (by decide) t).mp hm)

/-- A marked line becomes the lines of its hunk. -/
theorem emitted_mark {m : Marker} {l : Text} (hl : Shaped l) (hend : l.getLast? = some '\n') :
    emitted (m.char :: l) = (printLine (m, content l)).flatten := by
  have hm := marker_ne_nul m
  by_cases hnul : '\x00' ∈ l
  · obtain ⟨y, rfl, hy, hn⟩ := hl.sentinel hnul
    have hfilter : (m.char :: (y ++ ['\x00', '\n'])).filter (· ≠ '\x00') = m.char :: (y ++ ['\n']) := by
      have hy' : y.filter (· ≠ '\x00') = y := List.filter_eq_self.mpr fun c hc => by
        simp only [decide_eq_true_eq]
        rintro rfl
        exact hy hc
      rw [List.filter_cons_of_pos (by simpa using hm), List.filter_append, hy']
      rfl
    have hlast : (encodeUtf8 y).getLast? ≠ some 10 := fun h =>
      newline_not_mem_encodeUtf8 hn (List.mem_of_getLast? h)
    have hten : encodeUtf8 ['\n'] = [10] := rfl
    rw [emitted, if_pos (List.mem_cons_of_mem _ hnul), hfilter, encodeUtf8_marker, content,
      plain_sentinel hy, printLine, if_neg hlast, encodeUtf8_append, hten]
    simp
  · have hnul' : '\x00' ∉ m.char :: l := by
      rw [List.mem_cons, not_or]
      exact ⟨fun h => hm h.symm, hnul⟩
    have hlast : (encodeUtf8 l).getLast? = some 10 := by
      obtain ⟨x, rfl⟩ := List.getLast?_eq_some_iff.mp hend
      rw [encodeUtf8_append]
      exact List.getLast?_concat
    rw [emitted, if_neg hnul', encodeUtf8_marker, content, plain_of_not_mem hnul, printLine,
      if_pos hlast]
    simp

/-- A line feed only ends the content of a line. -/
theorem content_newline {l : Text} (hl : Shaped l) : (10 : UInt8) ∉ (content l).dropLast := by
  by_cases hnul : '\x00' ∈ l
  · obtain ⟨y, rfl, hy, hn⟩ := hl.sentinel hnul
    rw [content, plain_sentinel hy]
    exact fun h => newline_not_mem_encodeUtf8 hn (List.dropLast_subset _ h)
  · rw [content, plain_of_not_mem hnul]
    by_cases hnil : l = []
    · subst hnil
      simp
    · have hsplit := List.dropLast_append_getLast hnil
      have hfeed := hl.newline
      rw [← hsplit, encodeUtf8_append, List.dropLast_append_of_ne_nil (by
        rw [encodeUtf8_cons]
        simp [String.utf8EncodeChar_ne_nil])]
      rw [List.mem_append, not_or]
      refine ⟨newline_not_mem_encodeUtf8 hfeed, fun h => ?_⟩
      rw [encodeUtf8_cons, encodeUtf8_nil, List.append_nil] at h
      have hone := (mem_utf8EncodeChar_ascii (b := 10) (by decide) (List.dropLast_subset _ h)).2
      rw [hone] at h
      cases h

/-! ## One file -/

/-- The lines the hunks between two files show or count. -/
def countedLines (s t : Text) : List Text :=
  (patchLines s).take (hunksEnd 0 0 (getGroupedOpcodes (patchLines s) (patchLines t) 3)).1 ++
    (patchLines t).take (hunksEnd 0 0 (getGroupedOpcodes (patchLines s) (patchLines t) 3)).2

/-- Each counted line is a physical line. -/
def CountedAtFeeds (s t : Text) : Prop := ∀ l ∈ countedLines s t, l.getLast? = some '\n'

instance (s t : Text) : Decidable (CountedAtFeeds s t) :=
  inferInstanceAs (Decidable (∀ l ∈ _, _))

/-- The diff of one file. -/
def fileDiffOf (name : String) (before after : Option Bytes) (s t : Text) : FileDiff where
  old := before.map fun _ => name
  new := after.map fun _ => name
  hunks := (getGroupedOpcodes (patchLines s) (patchLines t) 3).map
    (hunkOf (patchLines s) (patchLines t))

section
variable {s t : Text} (hs : '\x00' ∉ s) (ht : '\x00' ∉ t)
include hs ht

theorem counted_shaped {l : Text} (h : l ∈ countedLines s t) : Shaped l := by
  rcases List.mem_append.mp h with h | h
  · exact patchLines_shaped hs (List.mem_of_mem_take h)
  · exact patchLines_shaped ht (List.mem_of_mem_take h)

omit hs ht in
theorem shown_counted {g : List Opcode}
    (hg : g ∈ getGroupedOpcodes (patchLines s) (patchLines t) 3) {e : Marker × Text}
    (he : e ∈ g.flatMap (opcodeMarks (patchLines s) (patchLines t))) : e.2 ∈ countedLines s t :=
  (getGroupedOpcodes_covers 3).mem_marks g hg e he

omit hs ht in
theorem physicalLines_encodeUtf8 (t : Text) :
    physicalLines (encodeUtf8 t) = (feeds t).map encodeUtf8 :=
  splitAfter_encodeUtf8 (n := '\n') (by decide) t

/-- The hunks turn the physical lines of the old text into those of the new one. -/
theorem applyHunks_lines (hcount : CountedAtFeeds s t) :
    applyHunks 0 0 (physicalLines (encodeUtf8 s))
        ((getGroupedOpcodes (patchLines s) (patchLines t) 3).map
          (hunkOf (patchLines s) (patchLines t))) =
      some (physicalLines (encodeUtf8 t)) := by
  have hcov := getGroupedOpcodes_covers (a := patchLines s) (b := patchLines t) 3
  have hold := feeds_patchLines hs _ fun l hl => hcount l (List.mem_append_left _ hl)
  have hnew := feeds_patchLines ht _ fun l hl => hcount l (List.mem_append_right _ hl)
  obtain ⟨h1, h2, h3, hagree⟩ := hcov.ends.2.2
  -- Behind the last hunk the two sides agree.
  have hrest : (patchLines s).drop (hunksEnd 0 0 (getGroupedOpcodes (patchLines s) (patchLines t) 3)).1 =
      (patchLines t).drop (hunksEnd 0 0 (getGroupedOpcodes (patchLines s) (patchLines t) 3)).2 := by
    have heq := hagree.slice_eq
    rw [slice, slice, Nat.add_sub_cancel_left, Nat.add_sub_cancel_left, h3,
      List.take_of_length_le (by rw [List.length_drop, h3]),
      List.take_of_length_le (by rw [List.length_drop])] at heq
    exact heq
  rw [physicalLines_encodeUtf8, physicalLines_encodeUtf8, hold, hnew, ← hrest,
    ← slice_zero, ← slice_zero]
  exact applyHunks_covers _ hcov

omit hs ht in
theorem formatRangeUnified_eq (start stop : Nat) :
    formatRangeUnified start stop =
      rangeText (if stop - start = 0 then start else start + 1) (stop - start) := by
  unfold formatRangeUnified rangeText
  split
  · next h => rw [if_neg (by omega : ¬stop - start = 0)]
  · rfl

omit hs ht in
theorem hunkHeader_eq (g : List Opcode) :
    hunkHeader g = (hunkOf (patchLines s) (patchLines t) g).header := by
  unfold hunkHeader Hunk.header
  simp only [formatRangeUnified_eq, hunkOf]

omit hs ht in
theorem emitted_header (h : Hunk) : emitted h.header = encodeUtf8 h.header := by
  refine if_neg fun hm => ?_
  rcases mem_header hm with hd | hd <;> exact absurd hd (by decide)

omit hs ht in
theorem emitted_name (mark side : String) {name : String} (hname : controlFree name)
    (hmark : '\x00' ∉ mark.toList) (hside : '\x00' ∉ side.toList) (data : Option Bytes) :
    emitted (mark.toList ++ headerName side name data ++ ['\n']) =
      encodeUtf8 (nameLine mark.toList side.toList (data.map fun _ => name)) := by
  have hnul : '\x00' ∉ name.toList := fun hm => absurd (hname _ hm).1 (by decide)
  have hline : mark.toList ++ headerName side name data ++ ['\n'] =
      nameLine mark.toList side.toList (data.map fun _ => name) := by
    cases data <;> rfl
  rw [hline]
  refine if_neg ?_
  cases data with
  | none =>
    simp only [nameLine, Option.map_none, List.mem_append, not_or]
    exact ⟨⟨hmark, by decide⟩, by decide⟩
  | some d =>
    simp only [nameLine, Option.map_some, List.mem_append, not_or]
    exact ⟨⟨hmark, hside, hnul⟩, by decide⟩

theorem emitted_group (hcount : CountedAtFeeds s t) {g : List Opcode}
    (hg : g ∈ getGroupedOpcodes (patchLines s) (patchLines t) 3) :
    (hunkHeader g :: g.flatMap (opcodeLines (patchLines s) (patchLines t))).flatMap emitted =
      (printHunk (hunkOf (patchLines s) (patchLines t) g)).flatten := by
  have hlines : g.flatMap (opcodeLines (patchLines s) (patchLines t)) =
      (g.flatMap (opcodeMarks (patchLines s) (patchLines t))).map fun e => e.1.char :: e.2 := by
    rw [List.map_flatMap]
    exact List.flatMap_congr fun o _ => opcodeLines_eq _ _ o
  have hbody : (g.flatMap (opcodeMarks (patchLines s) (patchLines t))).flatMap
        (fun e => emitted (e.1.char :: e.2)) =
      (g.flatMap (opcodeMarks (patchLines s) (patchLines t))).flatMap
        (fun e => (printLine (e.1, content e.2)).flatten) :=
    List.flatMap_congr fun e he => by
      have hshown := shown_counted hg he
      exact emitted_mark (counted_shaped hs ht hshown) (hcount _ hshown)
  have hflat : ∀ (es : List (Marker × Bytes)),
      (es.flatMap printLine).flatten = es.flatMap fun e => (printLine e).flatten := by
    intro es
    induction es with
    | nil => rfl
    | cons e es ih => rw [List.flatMap_cons, List.flatten_append, ih, List.flatMap_cons]
  rw [List.flatMap_cons, hlines, List.flatMap_map, hbody,
    hunkHeader_eq (s := s) (t := t), emitted_header, printHunk, List.flatten_cons, hflat]
  congr 1
  simp only [hunkOf, List.flatMap_map]

/-- The diff of two different texts is printed as their file diff. -/
theorem unifiedDiff_emitted (hcount : CountedAtFeeds s t) {name : String}
    (hname : controlFree name) (before after : Option Bytes)
    (hne : getGroupedOpcodes (patchLines s) (patchLines t) 3 ≠ []) :
    (unifiedDiff (patchLines s) (patchLines t) (headerName "a/" name before)
        (headerName "b/" name after)).flatMap emitted =
      (printFile (fileDiffOf name before after s t)).flatten := by
  have hgroups : ∀ gs ⊆ getGroupedOpcodes (patchLines s) (patchLines t) 3,
      (gs.flatMap fun g => hunkHeader g ::
          g.flatMap (opcodeLines (patchLines s) (patchLines t))).flatMap emitted =
        ((gs.map (hunkOf (patchLines s) (patchLines t))).flatMap printHunk).flatten := by
    intro gs
    induction gs with
    | nil => intro _; rfl
    | cons g gs ih =>
      intro hsub
      have hrest := ih fun x hx => hsub (List.mem_cons_of_mem _ hx)
      rw [List.flatMap_cons, List.flatMap_append, emitted_group hs ht hcount (hsub List.mem_cons_self),
        hrest, List.map_cons, List.flatMap_cons, List.flatten_append]
  have hold := emitted_name "--- " "a/" hname (by decide) (by decide) before
  have hnew := emitted_name "+++ " "b/" hname (by decide) (by decide) after
  simp only [unifiedDiff, if_neg hne]
  rw [List.flatMap_append, hgroups _ (List.Subset.refl _), List.flatMap_cons, List.flatMap_singleton, hold,
    hnew, printFile, List.flatten_cons, List.flatten_cons, List.append_assoc]
  rfl

/-- The file diff is valid. -/
theorem fileDiffOf_valid {name : String} (hname : controlFree name) (before after : Option Bytes)
    (hne : getGroupedOpcodes (patchLines s) (patchLines t) 3 ≠ []) :
    (fileDiffOf name before after s t).Valid := by
  have hfeed : '\n' ∉ name.toList := fun hm => absurd (hname _ hm).1 (by decide)
  have hname' : ∀ data : Option Bytes, ∀ n ∈ data.map fun _ => name, '\n' ∉ n.toList := by
    intro data n hn
    obtain ⟨_, _, rfl⟩ := Option.mem_map.mp hn
    exact hfeed
  refine ⟨by simpa [fileDiffOf] using hne, fun h hh => ?_, hname' before, hname' after⟩
  obtain ⟨g, hg, rfl⟩ := List.mem_map.mp hh
  obtain ⟨i, j, i', j', hgne, hchain⟩ := (getGroupedOpcodes_covers 3).group_chain g hg
  have hcounts := hchain.counts
  refine ⟨?_, ?_, ?_⟩
  · simp only [hunkOf, hchain.span hgne, List.map_map]
    exact hcounts.1.symm
  · simp only [hunkOf, hchain.span hgne, List.map_map]
    exact hcounts.2.symm
  · intro e he
    simp only [hunkOf, List.mem_map] at he
    obtain ⟨e', he', rfl⟩ := he
    exact content_newline (counted_shaped hs ht (shown_counted hg he'))

/-- Without hunks the two texts are one. -/
theorem eq_of_no_groups (h : getGroupedOpcodes (patchLines s) (patchLines t) 3 = []) : s = t := by
  have hcov := getGroupedOpcodes_covers (a := patchLines s) (b := patchLines t) 3
  rw [h] at hcov
  obtain ⟨-, -, hlen, hagree⟩ := hcov.ends.2.2
  simp only [hunksEnd, Nat.sub_zero] at hlen hagree
  have heq := hagree.slice_eq
  rw [Nat.zero_add, slice_zero, slice_zero, List.take_length, hlen,
    List.take_length] at heq
  refine marked_injective hs ht ?_
  rw [← splitAfter_flatten breaksAfter (marked s), ← splitAfter_flatten breaksAfter (marked t)]
  exact congrArg List.flatten heq

end

end LilTweak.Evidence
