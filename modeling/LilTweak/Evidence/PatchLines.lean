import LilTweak.Evidence.Readers
import LilTweak.Evidence.Reproduction
import Mathlib

/-!
# The lines of a patch

Cut with `str.splitlines`, a patch falls into exactly the pieces that were printed, as long as the
names in its headers hold no line break.
-/

namespace LilTweak.Evidence

open LilTweak.Lib LilTweak.Sources

/-! ## Whole lines -/

/-- A line that ends at its only break, and does not begin with a line feed. -/
structure Whole (line : Text) : Prop where
  alone : splitlines line = [line]
  ends : ∃ c, line.getLast? = some c ∧ lineBreak c = true
  head : line.head? ≠ some '\n'

theorem breaksAfter_congr (c : Char) {rest rest' : Text} (h : rest.head? = rest'.head?) :
    breaksAfter c rest = breaksAfter c rest' := by
  unfold breaksAfter
  rw [h]

theorem consHead_singleton {c : Char} {ls : List Text} {l : Text} (h : consHead c ls = [c :: l]) (hl : l ≠ []) :
    ls = [l] := by
  cases ls with
  | nil =>
    obtain rfl := (List.cons.inj (List.cons.inj h).1).2
    exact absurd rfl hl
  | cons l' ls =>
    obtain ⟨hhead, rfl⟩ := List.cons.inj h
    rw [(List.cons.inj hhead).2]

/-- A whole line is the first one of what it stands in front of. -/
theorem splitlines_append {line rest : Text} (halone : splitlines line = [line])
    (hends : ∃ c, line.getLast? = some c ∧ lineBreak c = true) (hrest : rest.head? ≠ some '\n') :
    splitlines (line ++ rest) = line :: splitlines rest := by
  unfold splitlines at halone ⊢
  induction line with
  | nil => cases halone
  | cons c line ih =>
    rw [splitAfter] at halone
    rw [List.cons_append, splitAfter]
    by_cases hnil : line = []
    · subst hnil
      obtain ⟨d, hd, hbreak⟩ := hends
      obtain rfl : c = d := Option.some.inj hd
      have hcut : breaksAfter c ([] ++ rest) = true := by
        have hno : (rest.head? == some '\n') = false := beq_false_of_ne hrest
        rw [List.nil_append, breaksAfter, hbreak, hno, Bool.and_false]
        rfl
      rw [if_pos hcut, List.nil_append]
    · have hhead : line.head? = (line ++ rest).head? := by
        cases line with
        | nil => exact absurd rfl hnil
        | cons d line => rfl
      rw [breaksAfter_congr c hhead] at halone
      by_cases hcut : breaksAfter c (line ++ rest) = true
      · rw [if_pos hcut] at halone
        have hline := (List.cons.inj (List.cons.inj halone).1).2
        exact absurd hline.symm hnil
      · rw [if_neg hcut] at halone ⊢
        have hline := consHead_singleton halone hnil
        have hends' : ∃ d, line.getLast? = some d ∧ lineBreak d = true := by
          rwa [List.getLast?_cons_of_ne_nil hnil] at hends
        rw [ih hline hends', consHead]

theorem splitlines_flatten {lines : List Text} (h : ∀ l ∈ lines, Whole l) :
    splitlines lines.flatten = lines := by
  induction lines with
  | nil => rfl
  | cons line lines ih =>
    have hline := h line List.mem_cons_self
    have hrest : lines.flatten.head? ≠ some '\n' := by
      cases lines with
      | nil => simp
      | cons next lines =>
        have hnext := h next (List.mem_cons_of_mem _ List.mem_cons_self)
        obtain ⟨c, hc, -⟩ := hnext.ends
        rw [List.flatten_cons]
        cases next with
        | nil => cases hc
        | cons d next => exact hnext.head
    rw [List.flatten_cons, splitlines_append hline.alone hline.ends hrest,
      ih fun l hl => h l (List.mem_cons_of_mem _ hl)]

/-- A text without breaks, closed with a line feed. -/
theorem whole_feed {text : Text} (hne : text ≠ []) (h : ∀ c ∈ text, lineBreak c = false) :
    Whole (text ++ ['\n']) := by
  refine ⟨?_, ⟨'\n', List.getLast?_concat, rfl⟩, ?_⟩
  · clear hne
    unfold splitlines
    induction text with
    | nil => rfl
    | cons c text ih =>
      have hcut : breaksAfter c (text ++ ['\n']) = false := by
        rw [breaksAfter, h c List.mem_cons_self, Bool.false_and]
      rw [List.cons_append, splitAfter, hcut, if_neg Bool.false_ne_true,
        ih fun d hd => h d (List.mem_cons_of_mem _ hd), consHead]
  · intro hhead
    cases text with
    | nil => exact hne rfl
    | cons c text =>
      obtain rfl : c = '\n' := Option.some.inj hhead
      have hbreak := h _ List.mem_cons_self
      cases hbreak

theorem chomp_feed {text : Text} (h : ∀ c ∈ text, lineBreak c = false) : chomp (text ++ ['\n']) = text := by
  unfold chomp
  rw [List.getLast?_concat, List.dropLast_concat]
  simp only
  have hbare : text.getLast? ≠ some '\r' := by
    intro hr
    have hbreak := h _ (List.mem_of_getLast? hr)
    cases hbreak
  rw [if_neg fun hr => hbare hr.2]
  exact if_pos (by decide)

/-! ## The lines of a file -/

theorem splitlines_line {text line : Text} (h : line ∈ splitlines text) : splitlines line = [line] := by
  unfold splitlines at h ⊢
  induction text generalizing line with
  | nil => cases h
  | cons c rest ih =>
    rw [splitAfter] at h
    have hone : ∀ b : Bool, breaksAfter c [] = b → splitAfter breaksAfter [c] = [[c]] := by
      intro b _
      rw [splitAfter]
      split <;> rfl
    split at h
    · rcases List.mem_cons.mp h with rfl | h
      · exact hone _ rfl
      · exact ih h
    · next hcut =>
      cases hs : splitAfter breaksAfter rest with
      | nil =>
        rw [hs, consHead, List.mem_singleton] at h
        subst h
        exact hone _ rfl
      | cons l ls =>
        rw [hs, consHead] at h
        rcases List.mem_cons.mp h with rfl | h
        · have hl : splitAfter breaksAfter l = [l] := ih (by rw [hs]; exact List.mem_cons_self)
          have hne := ne_nil_of_mem_splitAfter (p := breaksAfter) (t := rest) (l := l) (by simp [hs])
          have hhead : rest.head? = l.head? := by
            rw [← splitAfter_flatten breaksAfter rest, hs, List.flatten_cons]
            cases l with
            | nil => exact absurd rfl hne
            | cons d l => rfl
          rw [splitAfter, ← breaksAfter_congr c hhead, if_neg hcut, hl, consHead]
        · exact ih (by rw [hs]; exact List.mem_cons_of_mem _ h)

/-- A line ends at a break, unless it ends where the text does. -/
theorem ends_of_mem_splitlines {text line : Text} (h : line ∈ splitlines text) :
    (∃ c, line.getLast? = some c ∧ lineBreak c = true) ∨ line.getLast? = text.getLast? := by
  unfold splitlines at h
  induction text generalizing line with
  | nil => cases h
  | cons c rest ih =>
    have hlast : ∀ l, rest ≠ [] → l = rest.getLast? → l = (c :: rest).getLast? := by
      intro l hne hl
      rw [List.getLast?_cons_of_ne_nil hne, hl]
    have hne_of : ∀ l, l ∈ splitAfter breaksAfter rest → rest ≠ [] := by
      rintro l hl rfl
      cases hl
    rw [splitAfter] at h
    split at h
    · next hcut =>
      rcases List.mem_cons.mp h with rfl | h
      · unfold breaksAfter at hcut
        rw [Bool.and_eq_true] at hcut
        exact .inl ⟨c, rfl, hcut.1⟩
      · exact (ih h).imp id (hlast _ (hne_of _ h))
    · cases hs : splitAfter breaksAfter rest with
      | nil =>
        rw [hs, consHead, List.mem_singleton] at h
        obtain rfl := splitAfter_eq_nil.mp hs
        exact .inr (by rw [h])
      | cons l ls =>
        rw [hs, consHead] at h
        have hmem : l ∈ splitAfter breaksAfter rest := by rw [hs]; exact List.mem_cons_self
        rcases List.mem_cons.mp h with rfl | h
        · have hne := ne_nil_of_mem_splitAfter (p := breaksAfter) (t := rest) (l := l) hmem
          rw [List.getLast?_cons_of_ne_nil hne]
          exact (ih hmem).imp id (hlast _ (hne_of _ hmem))
        · have hmem' : line ∈ splitAfter breaksAfter rest := by rw [hs]; exact List.mem_cons_of_mem _ h
          exact (ih hmem').imp id (hlast _ (hne_of _ hmem'))

theorem patchLines_ends {text line : Text} (h : line ∈ patchLines text) :
    ∃ c, line.getLast? = some c ∧ lineBreak c = true := by
  unfold patchLines at h
  rcases ends_of_mem_splitlines h with hends | hlast
  · exact hends
  · have hne := ne_nil_of_mem_splitAfter (p := breaksAfter) h
    unfold marked at hlast
    by_cases hlack : lacksNewline text = true
    · rw [if_pos hlack, List.getLast?_append_of_ne_nil _ (by simp)] at hlast
      exact ⟨'\n', hlast, rfl⟩
    · rw [if_neg hlack] at hlast
      unfold lacksNewline at hlack
      cases hc : text.getLast? with
      | none =>
        rw [hc] at hlast
        exact absurd (List.getLast?_eq_none_iff.mp hlast) hne
      | some c =>
        rw [hc] at hlack hlast
        refine ⟨c, hlast, ?_⟩
        simp only [Bool.and_eq_true, decide_eq_true_eq, not_and, not_not, ne_eq] at hlack
        by_cases hfeed : c = '\n'
        · rw [hfeed]
          rfl
        · rw [hlack hfeed]
          rfl

/-! ## The pieces of a printed line -/

/-- The lines a line of the diff is printed as: a sentinel makes room for a note. -/
def pieces (line : Text) : List Text :=
  if '\x00' ∈ line then [line.filter (· ≠ '\x00'), noNewline] else [line]

theorem emitted_pieces (line : Text) : emitted line = encodeUtf8 (pieces line).flatten := by
  unfold emitted pieces
  split
  · rw [List.flatten_cons, List.flatten_singleton, encodeUtf8_append]
  · rw [List.flatten_singleton]

theorem whole_note : Whole noNewline := ⟨by decide, ⟨'\n', rfl, rfl⟩, by decide⟩

theorem lineBreak_marker (m : Marker) : lineBreak m.char = false := by cases m <;> rfl

theorem whole_mark (m : Marker) {line : Text} (halone : splitlines line = [line])
    (hends : ∃ c, line.getLast? = some c ∧ lineBreak c = true) : Whole (m.char :: line) := by
  have hne : line ≠ [] := by
    rintro rfl
    cases halone
  refine ⟨?_, ?_, ?_⟩
  · unfold splitlines at halone ⊢
    have hcut : breaksAfter m.char line = false := by rw [breaksAfter, lineBreak_marker, Bool.false_and]
    rw [splitAfter, hcut, if_neg Bool.false_ne_true, halone, consHead]
  · rwa [List.getLast?_cons_of_ne_nil hne]
  · intro hhead
    have hm : m.char = '\n' := Option.some.inj hhead
    cases m <;> cases hm

theorem alone_unbroken {y : Text} (h : splitlines (y ++ ['\x00', '\n']) = [y ++ ['\x00', '\n']]) :
    ∀ c ∈ y, lineBreak c = false := by
  unfold splitlines at h
  induction y with
  | nil => exact nofun
  | cons c y ih =>
    rw [List.cons_append, splitAfter] at h
    have hne : y ++ ['\x00', '\n'] ≠ [] := by simp
    by_cases hcut : breaksAfter c (y ++ ['\x00', '\n']) = true
    · rw [if_pos hcut] at h
      exact absurd (List.cons.inj (List.cons.inj h).1).2.symm hne
    · rw [if_neg hcut] at h
      have hrest := consHead_singleton h hne
      have hclean := ih hrest
      intro d hd
      rcases List.mem_cons.mp hd with rfl | hd
      · have hhead : (y ++ ['\x00', '\n']).head? ≠ some '\n' := by
          cases y with
          | nil => decide
          | cons e y =>
            intro he
            obtain rfl : e = '\n' := Option.some.inj he
            have hbreak := hclean '\n' List.mem_cons_self
            cases hbreak
        unfold breaksAfter at hcut
        have hno : ((y ++ ['\x00', '\n']).head? == some '\n') = false := beq_false_of_ne hhead
        rw [hno, Bool.and_false, Bool.not_false, Bool.and_true, Bool.not_eq_true] at hcut
        exact hcut
      · exact hclean d hd

/-- The pieces of a marked line of a file are whole, and begin with the marker. -/
theorem whole_pieces {text line : Text} (ht : '\x00' ∉ text) (h : line ∈ patchLines text) (m : Marker) :
    (∀ l ∈ pieces (m.char :: line), Whole l) ∧
      ∃ body, (pieces (m.char :: line)).map chomp = (m.char :: body) :: [] ∨
        (pieces (m.char :: line)).map chomp = (m.char :: body) :: [chomp noNewline] := by
  have halone : splitlines line = [line] := splitlines_line h
  have hends := patchLines_ends h
  have hm := marker_ne_nul m
  unfold pieces
  by_cases hnul : '\x00' ∈ line
  · obtain ⟨y, rfl, hy, -⟩ := (patchLines_shaped ht h).sentinel hnul
    have hclean := alone_unbroken halone
    have hfilter : (m.char :: (y ++ ['\x00', '\n'])).filter (· ≠ '\x00') = m.char :: (y ++ ['\n']) := by
      have hkeep : y.filter (· ≠ '\x00') = y := by
        rw [List.filter_eq_self]
        intro c hc
        simp only [decide_eq_true_eq]
        rintro rfl
        exact hy hc
      rw [List.filter_cons_of_pos (by simpa using hm), List.filter_append, hkeep]
      rfl
    rw [if_pos (List.mem_cons_of_mem _ hnul), hfilter]
    have hbroken : ∀ c ∈ m.char :: y, lineBreak c = false := by
      intro c hc
      rcases List.mem_cons.mp hc with rfl | hc
      · exact lineBreak_marker m
      · exact hclean c hc
    have hwhole : Whole ((m.char :: y) ++ ['\n']) := whole_feed (by simp) hbroken
    refine ⟨?_, y, .inr ?_⟩
    · intro l hl
      rcases List.mem_cons.mp hl with rfl | hl
      · exact hwhole
      · rw [List.mem_singleton.mp hl]
        exact whole_note
    · have hchomp : chomp (m.char :: (y ++ ['\n'])) = m.char :: y := chomp_feed hbroken
      rw [List.map_cons, List.map_singleton, hchomp]
  · rw [if_neg (by simp only [List.mem_cons, not_or]; exact ⟨hm.symm, hnul⟩)]
    have hwhole := whole_mark m halone hends
    refine ⟨?_, ?_⟩
    · intro l hl
      rw [List.mem_singleton.mp hl]
      exact hwhole
    · obtain ⟨body, hbody⟩ : ∃ body, chomp (m.char :: line) = m.char :: body := by
        have hne : line ≠ [] := by
          rintro rfl
          cases halone
        have hdrop : (m.char :: line).dropLast = m.char :: line.dropLast := List.dropLast_cons_of_ne_nil hne
        unfold chomp
        rw [List.getLast?_cons_of_ne_nil hne, hdrop]
        obtain ⟨c, hc, hbreak⟩ := hends
        rw [hc]
        simp only
        by_cases hpair : c = '\n' ∧ (m.char :: line.dropLast).getLast? = some '\r'
        · rw [if_pos hpair]
          have hne' : line.dropLast ≠ [] := by
            intro hnil
            rw [hnil] at hpair
            have hmr : m.char = '\r' := Option.some.inj hpair.2
            cases m <;> cases hmr
          exact ⟨line.dropLast.dropLast, List.dropLast_cons_of_ne_nil hne'⟩
        · rw [if_neg hpair, if_pos hbreak]
          exact ⟨line.dropLast, rfl⟩
      exact ⟨body, .inl (by rw [List.map_singleton, hbody])⟩

end LilTweak.Evidence
