import LilTweak.Evidence.Patch

/-!
# Patch lines and physical lines

`_patch_lines` cuts after every line break Python knows and marks a missing final
newline with a NUL. As long as its lines end at line feeds they are the physical
lines of the file, read without the mark.
-/

namespace LilTweak.Evidence

open LilTweak.Lib

/-! ## Lines with sentinels -/

/-- A line as it stands in the file: without the sentinel and its newline. -/
def plain (l : Text) : Text := if '\x00' ∈ l then (l.filter (· ≠ '\x00')).dropLast else l

/-- The bytes of a line as it stands in the file. -/
def content (l : Text) : Bytes := encodeUtf8 (plain l)

/-- The shape of the lines `_patch_lines` cuts: a line feed only at the end, and a
NUL only as the sentinel. -/
structure Shaped (l : Text) : Prop where
  newline : '\n' ∉ l.dropLast
  sentinel : '\x00' ∈ l → ∃ y, l = y ++ ['\x00', '\n'] ∧ '\x00' ∉ y ∧ '\n' ∉ y

theorem newline_breaks (c : Char) (rest : Text) (h : (c == '\n') = true) :
    breaksAfter c rest = true := by
  obtain rfl : c = '\n' := by simpa using h
  rfl

theorem newline_last {t l : Text} (h : l ∈ splitlines t) : '\n' ∉ l.dropLast := by
  induction t generalizing l with
  | nil => simp [splitlines, splitAfter] at h
  | cons c rest ih =>
    rw [splitlines, splitAfter] at h
    split at h
    · rcases List.mem_cons.mp h with rfl | h
      · simp
      · exact ih h
    · next hc =>
      have hne : '\n' ≠ c := by
        rintro rfl
        exact hc rfl
      cases hs : splitAfter breaksAfter rest with
      | nil =>
        rw [hs, consHead, List.mem_singleton] at h
        simp [h]
      | cons l' ls =>
        rw [hs, consHead] at h
        rcases List.mem_cons.mp h with rfl | h
        · have hl' := ih (l := l') (by rw [splitlines, hs]; exact List.mem_cons_self)
          have hnil := ne_nil_of_mem_splitAfter (p := breaksAfter) (t := rest) (l := l') (by simp [hs])
          rw [List.dropLast_cons_of_ne_nil hnil, List.mem_cons, not_or]
          exact ⟨hne, hl'⟩
        · exact ih (by rw [splitlines, hs]; exact List.mem_cons_of_mem _ h)

/-- A NUL that stands only in front of the last newline stands only in the last line. -/
theorem sentinel_last {p : Char → Text → Bool} (hp : p '\x00' ['\n'] = false) {t l : Text}
    (ht : '\x00' ∉ t) (h : l ∈ splitAfter p (t ++ ['\x00', '\n'])) (hl : '\x00' ∈ l) :
    ∃ y, l = y ++ ['\x00', '\n'] ∧ '\x00' ∉ y := by
  induction t generalizing l with
  | nil =>
    have hlast : splitAfter p ['\n'] = [['\n']] := by
      rw [splitAfter]
      split <;> rfl
    have hbase : splitAfter p ([] ++ ['\x00', '\n']) = [['\x00', '\n']] := by
      rw [List.nil_append, splitAfter, hp, if_neg Bool.false_ne_true, hlast, consHead]
    rw [hbase, List.mem_singleton] at h
    exact ⟨[], by rw [h, List.nil_append], by simp⟩
  | cons c rest ih =>
    simp only [List.mem_cons, not_or] at ht
    rw [List.cons_append, splitAfter] at h
    split at h
    · rcases List.mem_cons.mp h with rfl | h
      · simp only [List.mem_singleton] at hl
        exact absurd hl ht.1
      · exact ih ht.2 h hl
    · cases hs : splitAfter p (rest ++ ['\x00', '\n']) with
      | nil => exact absurd (splitAfter_eq_nil.mp hs) (by simp)
      | cons l' ls =>
        rw [hs, consHead] at h
        rcases List.mem_cons.mp h with rfl | h
        · have hl' : '\x00' ∈ l' := by
            rcases List.mem_cons.mp hl with hc | hl
            · exact absurd hc ht.1
            · exact hl
          obtain ⟨y, rfl, hy⟩ := ih ht.2 (by rw [hs]; exact List.mem_cons_self) hl'
          refine ⟨c :: y, rfl, ?_⟩
          simp only [List.mem_cons, not_or]
          exact ⟨ht.1, hy⟩
        · exact ih ht.2 (by rw [hs]; exact List.mem_cons_of_mem _ h) hl

theorem patchLines_shaped {t l : Text} (ht : '\x00' ∉ t) (h : l ∈ patchLines t) : Shaped l := by
  refine ⟨newline_last h, fun hl => ?_⟩
  unfold patchLines marked at h
  split at h
  · obtain ⟨y, rfl, hy⟩ := sentinel_last (p := breaksAfter) rfl ht h hl
    refine ⟨y, rfl, hy, fun hn => newline_last h ?_⟩
    rw [List.dropLast_append_of_ne_nil (by simp)]
    exact List.mem_append_left _ hn
  · have hmem : '\x00' ∈ (splitlines t).flatten := List.mem_flatten.mpr ⟨l, h, hl⟩
    rw [splitlines, splitAfter_flatten] at hmem
    exact absurd hmem ht

theorem plain_sentinel {y : Text} (hy : '\x00' ∉ y) : plain (y ++ ['\x00', '\n']) = y := by
  have hfilter : y.filter (· ≠ '\x00') = y := List.filter_eq_self.mpr fun c hc => by
    simp only [decide_eq_true_eq]
    rintro rfl
    exact hy hc
  unfold plain
  rw [if_pos (by simp), List.filter_append, hfilter]
  simp

theorem plain_of_not_mem {l : Text} (h : '\x00' ∉ l) : plain l = l := if_neg h

/-- The lines of a text that end at line feeds only. -/
abbrev feeds (t : Text) : List Text := splitAfter (fun c _ => c == '\n') t

theorem feeds_plain {t : Text} (ht : '\x00' ∉ t) : (feeds t).map plain = feeds t := by
  refine (List.map_congr_left fun l hl => plain_of_not_mem fun hn => ht ?_).trans (List.map_id' _)
  rw [← splitAfter_flatten (fun c _ => c == '\n') t]
  exact List.mem_flatten.mpr ⟨l, hl, hn⟩

theorem feeds_sentinel {t : Text} {c : Char} (ht : '\x00' ∉ t) (hlast : t.getLast? = some c)
    (hc : c ≠ '\n') : (feeds (t ++ ['\x00', '\n'])).map plain = feeds t := by
  induction t with
  | nil => cases hlast
  | cons d rest ih =>
    simp only [List.mem_cons, not_or] at ht
    cases hrest : rest with
    | nil =>
      subst hrest
      obtain rfl : d = c := by simpa using hlast
      have hd : (d == '\n') = false := by simpa using hc
      have hnul : '\x00' ∉ [d] := by simpa using ht.1
      have hbase : feeds [d, '\x00', '\n'] = [[d] ++ ['\x00', '\n']] := by
        rw [feeds, splitAfter, hd, if_neg Bool.false_ne_true]
        rfl
      rw [List.cons_append, List.nil_append, hbase, List.map_singleton, plain_sentinel hnul, feeds,
        splitAfter, hd, if_neg Bool.false_ne_true]
      rfl
    | cons e tail =>
      have hlast' : rest.getLast? = some c := by
        rw [hrest, List.getLast?_cons_cons] at hlast
        rw [hrest, hlast]
      have ih := ih ht.2 hlast'
      simp only [feeds] at ih
      rw [← hrest, List.cons_append, feeds, splitAfter, feeds, splitAfter]
      by_cases hd : (d == '\n') = true
      · have hplain : plain [d] = [d] := plain_of_not_mem (by simpa using ht.1)
        rw [if_pos hd, if_pos hd, List.map_cons, ih, hplain]
      · rw [if_neg hd, if_neg hd, ← ih]
        cases hs : splitAfter (fun c _ => c == '\n') (rest ++ ['\x00', '\n']) with
        | nil => exact absurd (splitAfter_eq_nil.mp hs) (by simp)
        | cons l ls =>
          -- The sentinel, when it is in the first line, is still at its end.
          have hhead : plain (d :: l) = d :: plain l := by
            by_cases hl : '\x00' ∈ l
            · obtain ⟨y, rfl, hy⟩ := sentinel_last (p := fun c _ => c == '\n') rfl ht.2
                (l := l) (by rw [hs]; exact List.mem_cons_self) hl
              have hy' : '\x00' ∉ d :: y := by simpa [hy] using ht.1
              rw [plain_sentinel hy, ← List.cons_append, plain_sentinel hy']
            · have hl' : '\x00' ∉ d :: l := by simpa [hl] using ht.1
              rw [plain_of_not_mem hl, plain_of_not_mem hl']
          rw [consHead, List.map_cons, hhead, List.map_cons, consHead]

/-- The physical lines of a text are those of its marked form, read plainly. -/
theorem feeds_marked {t : Text} (ht : '\x00' ∉ t) : (feeds (marked t)).map plain = feeds t := by
  unfold marked
  split
  · next hlack =>
    unfold lacksNewline at hlack
    split at hlack
    · next c hlast =>
      simp only [Bool.and_eq_true, decide_eq_true_eq] at hlack
      exact feeds_sentinel ht hlast hlack.1
    · cases hlack
  · exact feeds_plain ht

theorem marked_injective {s t : Text} (hs : '\x00' ∉ s) (ht : '\x00' ∉ t)
    (h : marked s = marked t) : s = t := by
  unfold marked at h
  split at h <;> split at h
  · exact List.append_cancel_right h
  · exact absurd (h ▸ List.mem_append_right s (by simp)) ht
  · exact absurd (h ▸ List.mem_append_right t (by simp)) hs
  · exact h

/-- Where the first lines `_patch_lines` cuts end at line feeds, they are physical lines. -/
theorem feeds_patchLines {t : Text} (ht : '\x00' ∉ t) (k : Nat)
    (h : ∀ l ∈ (patchLines t).take k, l.getLast? = some '\n') :
    (feeds t).map encodeUtf8 = ((patchLines t).take k).map content ++
      (feeds ((patchLines t).drop k).flatten).map content := by
  have hcoarse := splitAfter_coarse_take (q := fun c => c == '\n') (p := breaksAfter)
    newline_breaks k (t := marked t) fun l hl => ⟨'\n', h l hl, rfl⟩
  have hcontent : content = encodeUtf8 ∘ plain := rfl
  rw [← feeds_marked ht, List.map_map, feeds, hcoarse, ← hcontent, List.map_append]
  rfl

end LilTweak.Evidence
