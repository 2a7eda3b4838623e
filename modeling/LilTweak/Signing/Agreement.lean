import LilTweak.Signing.Replay
import LilTweak.Signing.Urllib
import LilTweak.Worker.CoreSigning
import Mathlib

/-!
# Two canonical requests

The Worker and the core read the same pairs from a query and write a pair the same way. They differ in
a query that starts with a second question mark, which the Worker drops, and in the order of the
pairs: by UTF-16 code units on one side, by code points on the other.
-/

namespace LilTweak.Signing

open LilTweak.Lib LilTweak.Worker
open LilTweak.Store (validSha256)

/-! ## Reading a query -/

theorem unquoteToBytes_cons {b : UInt8} (hb : b ≠ 37) (bytes : List UInt8) :
    unquoteToBytes (b :: bytes) = b :: unquoteToBytes bytes := by
  have hbeq : (b == 37) = false := by simpa using hb
  unfold unquoteToBytes
  rw [List.splitOn_cons_eq_if_modifyHead, hbeq]
  simp only [Bool.false_eq_true, ↓reduceIte]
  cases hs : bytes.splitOn 37 with
  | nil => exact absurd hs (List.splitOn_ne_nil _ _)
  | cons first items => rfl

theorem hexByte_some {h l byte : UInt8} (hb : hexByte h l = some byte) : h ≠ 37 ∧ l ≠ 37 := by
  constructor
  · rintro rfl
    simp [hexByte, hexValue] at hb
  · rintro rfl
    simp only [hexByte, Option.bind_eq_bind] at hb
    obtain ⟨x, -, hb⟩ := Option.bind_eq_some_iff.mp hb
    simp [hexValue] at hb

theorem unquoteToBytes_percent (bytes : List UInt8) :
    unquoteToBytes (37 :: bytes) = (bytes.splitOn 37).flatMap unquoteItem := by
  unfold unquoteToBytes
  rw [List.splitOn_cons_eq_if_modifyHead]
  simp

/-- A `%` in front of an item that does not start with two digits stays. -/
theorem unquoteToBytes_keeps {bytes : List UInt8} (h : ∀ first items, bytes.splitOn 37 = first :: items →
    unquoteItem first = 37 :: first) : unquoteToBytes (37 :: bytes) = 37 :: unquoteToBytes bytes := by
  rw [unquoteToBytes_percent]
  unfold unquoteToBytes
  cases hs : bytes.splitOn 37 with
  | nil => exact absurd hs (List.splitOn_ne_nil _ _)
  | cons first items => rw [List.flatMap_cons, h first items hs, List.cons_append]

/-- The first item of what follows a `%`. -/
theorem splitOn_head {b : UInt8} {bytes first : List UInt8} {items : List (List UInt8)}
    (h : (b :: bytes).splitOn 37 = first :: items) :
    (b = 37 ∧ first = []) ∨ ∃ first', first = b :: first' ∧ bytes.splitOn 37 = first' :: items := by
  rw [List.splitOn_cons_eq_if_modifyHead] at h
  by_cases hb : b = 37
  · simp only [hb, beq_self_eq_true, ↓reduceIte, List.cons.injEq] at h
    exact .inl ⟨hb, h.1.symm⟩
  · have hbeq : (b == 37) = false := by simpa using hb
    rw [hbeq, if_neg Bool.false_ne_true] at h
    cases hs : bytes.splitOn 37 with
    | nil => exact absurd hs (List.splitOn_ne_nil _ _)
    | cons first' items' =>
      rw [hs] at h
      obtain ⟨rfl, rfl⟩ := List.cons.inj h
      exact .inr ⟨first', rfl, rfl⟩

/-- Cutting at `%` first decodes what the URL standard decodes from left to right. -/
theorem percentDecode_eq (bytes : List UInt8) : percentDecode bytes = unquoteToBytes bytes := by
  induction bytes using percentDecode.induct with
  | case1 h l rest byte hbyte ih =>
    obtain ⟨hh, hl⟩ := hexByte_some hbyte
    rw [percentDecode, if_pos rfl, hbyte, ih, unquoteToBytes_percent]
    simp only
    cases hs : (h :: l :: rest).splitOn 37 with
    | nil => exact absurd hs (List.splitOn_ne_nil _ _)
    | cons first items =>
      obtain ⟨he, -⟩ | ⟨first', rfl, hs'⟩ := splitOn_head hs
      · exact absurd he hh
      obtain ⟨he, -⟩ | ⟨first'', rfl, hs''⟩ := splitOn_head hs'
      · exact absurd he hl
      rw [List.flatMap_cons, unquoteItem, hbyte, unquoteToBytes, hs'']
      rfl
  | case2 h l rest hbyte ih =>
    rw [percentDecode, if_pos rfl, hbyte, ih, unquoteToBytes_keeps]
    intro first items hs
    obtain ⟨-, rfl⟩ | ⟨first', rfl, hs'⟩ := splitOn_head hs
    · rfl
    obtain ⟨-, rfl⟩ | ⟨first'', rfl, -⟩ := splitOn_head hs'
    · rfl
    rw [unquoteItem, hbyte]
  | case3 b h l rest hb ih => rw [percentDecode, if_neg hb, ih, unquoteToBytes_cons hb]
  | case4 bytes hshort =>
    have one : ∀ b : UInt8, unquoteToBytes [b] = [b] := by
      intro b
      by_cases hb : b = 37
      · subst hb
        rfl
      · rw [unquoteToBytes_cons hb]
        rfl
    rcases bytes with _ | ⟨b, _ | ⟨c, _ | ⟨l, rest⟩⟩⟩
    · rfl
    · exact (one b).symm
    · by_cases hb : b = 37
      · subst hb
        rw [unquoteToBytes_keeps, one]
        · rfl
        · intro first items hs
          obtain ⟨-, rfl⟩ | ⟨first', rfl, hs'⟩ := splitOn_head hs
          · rfl
          · obtain ⟨rfl, -⟩ := List.cons.inj (show [[]] = first' :: items from hs')
            rfl
      · rw [unquoteToBytes_cons hb, one]
        rfl
    · exact absurd rfl (hshort b c l rest)

/-- On ASCII the core's `unquote` is what the Worker does to a component. -/
theorem unquote_ascii {text : List Char} (h : ∀ c ∈ text, c.toNat < 128) :
    unquote text = decodeLossy (percentDecode (encodeUtf8 text)) := by
  have hmem : 37 ∈ encodeUtf8 text ↔ '%' ∈ text := mem_encodeUtf8_ascii (n := '%') (by decide) text
  unfold unquote
  by_cases hpercent : '%' ∈ text
  · have hne : text ≠ [] := List.ne_nil_of_mem hpercent
    have hchain : text.IsChain fun a b => (isAscii a == isAscii b) = true := by
      apply List.Pairwise.isChain
      apply List.pairwise_of_forall_mem_list
      intro a ha b hb
      simp [isAscii, h a ha, h b hb]
    have hall : text.all isAscii = true := by
      rw [List.all_eq_true]
      intro c hc
      simp [isAscii, h c hc]
    rw [if_pos hpercent, List.splitBy_of_isChain hne hchain, List.flatMap_singleton, if_pos hall,
      percentDecode_eq]
  · rw [if_neg hpercent, percentDecode_id (fun hin => hpercent (hmem.mp hin)), decodeLossy_encodeUtf8 h]

theorem mem_of_mem_splitOn {query part : List Char} {c separator : Char}
    (hpart : part ∈ query.splitOn separator) (hc : c ∈ part) : c ∈ query := by
  induction query generalizing part with
  | nil =>
    obtain rfl := List.mem_singleton.mp (show part ∈ [[]] from hpart)
    exact hc
  | cons x query ih =>
    rw [List.splitOn_cons_eq_if_modifyHead] at hpart
    split at hpart
    · rcases List.mem_cons.mp hpart with rfl | hrest
      · exact absurd hc List.not_mem_nil
      · exact List.mem_cons_of_mem x (ih hrest hc)
    · cases hs : query.splitOn separator with
      | nil => exact absurd hs (List.splitOn_ne_nil _ _)
      | cons first items =>
        rw [hs] at hpart ih
        rcases List.mem_cons.mp hpart with rfl | hrest
        · rcases List.mem_cons.mp hc with rfl | hc
          · exact List.mem_cons_self
          · exact List.mem_cons_of_mem x (ih List.mem_cons_self hc)
        · exact List.mem_cons_of_mem x (ih (List.mem_cons_of_mem first hrest) hc)

/-- Both read the pairs of an ASCII query alike. -/
theorem parseQsl_ascii {query : List Char} (h : ∀ c ∈ query, c.toNat < 128) :
    parseQsl (String.ofList query) = ((query.splitOn '&').filter (· ≠ [])).map formEntry := by
  have hparts : ∀ part ∈ query.splitOn '&', ∀ c ∈ part, c.toNat < 128 :=
    fun part hpart c hc => h c (mem_of_mem_splitOn hpart hc)
  have hcomponent : ∀ part : List Char, (∀ c ∈ part, c.toNat < 128) →
      String.ofList (unquote (part.map fun c => if c = '+' then ' ' else c)) = formComponent part := by
    intro part hpart
    rw [formComponent, unquote_ascii]
    intro c hc
    obtain ⟨d, hd, rfl⟩ := List.mem_map.mp hc
    split
    · decide
    · exact hpart d hd
  unfold parseQsl
  rw [String.toList_ofList]
  simp only [splitFirst]
  generalize query.splitOn '&' = parts at hparts
  induction parts with
  | nil => rfl
  | cons part parts ih =>
    have ih := ih fun p hp => hparts p (List.mem_cons_of_mem _ hp)
    have hpart := hparts part List.mem_cons_self
    by_cases hnil : part = []
    · rw [List.filterMap_cons, if_pos hnil, List.filter_cons_of_neg (by simp [hnil])]
      exact ih
    · rw [List.filterMap_cons, if_neg hnil, List.filter_cons_of_pos (by simp [hnil]), List.map_cons]
      rw [hcomponent _ fun c hc => hpart c ((List.takeWhile_sublist _).subset hc),
        hcomponent _ fun c hc => hpart c ((List.dropWhile_sublist _).subset
          ((List.drop_sublist 1 _).subset hc)), ih]
      rfl

theorem formComponent_mark (part : List Char) :
    formComponent ('?' :: part) = String.ofList ('?' :: (formComponent part).toList) := by
  rw [formComponent, formComponent, List.map_cons, if_neg (by decide), encodeUtf8_ascii (by decide),
    percentDecode_cons (by decide), decodeLossy_ascii (by decide), String.toList_ofList]

/-- A query without a second question mark in front reads the same, and one with it does not. -/
theorem urlSearchParams_perm {query : List Char} :
    (urlSearchParams query).Perm (((query.splitOn '&').filter (· ≠ [])).map formEntry) ↔
      query.head? ≠ some '?' := by
  cases query with
  | nil => exact iff_of_true (.refl _) (by simp)
  | cons c query =>
    by_cases hc : c = '?'
    · subst hc
      refine iff_of_false (fun h => ?_) (by simp)
      have hne : ('?' == '&') = false := by decide
      have hcut : ('?' :: query).splitOn '&' = (query.splitOn '&').modifyHead ('?' :: ·) := by
        rw [List.splitOn_cons_eq_if_modifyHead, hne, if_neg Bool.false_ne_true]
      rw [hcut] at h
      simp only [urlSearchParams, List.head?_cons, ↓reduceIte, List.tail_cons] at h
      cases hs : query.splitOn '&' with
      | nil => exact absurd hs (List.splitOn_ne_nil _ _)
      | cons first items =>
        have hmark : (('?' :: first) :: items).filter (· ≠ []) = ('?' :: first) :: items.filter (· ≠ []) :=
          List.filter_cons_of_pos (by simp)
        rw [hs, List.modifyHead_cons, hmark] at h
        by_cases hfirst : first = []
        · rw [List.filter_cons_of_neg (by simp [hfirst])] at h
          simpa using h.length_eq
        · rw [List.filter_cons_of_pos (by simp [hfirst]), List.map_cons, List.map_cons] at h
          have hone : [formEntry first].Perm [formEntry ('?' :: first)] :=
            (List.perm_append_right_iff ((items.filter (· ≠ [])).map formEntry)).mp h
          have hname := congrArg Prod.fst (List.singleton_perm_singleton.mp hone)
          simp only [formEntry] at hname
          rw [List.takeWhile_cons_of_pos (by decide), formComponent_mark] at hname
          have hlist := congrArg String.toList hname
          rw [String.toList_ofList] at hlist
          exact List.cons_ne_self _ _ hlist.symm
    · have hhead : (c :: query).head? ≠ some '?' := by simpa using hc
      simp only [urlSearchParams, if_neg hhead]
      exact iff_of_true (.refl _) hhead

/-! ## Writing a pair -/

/-- `encodeURIComponent` leaves ASCII alone, and never a `%`. -/
theorem keeps_component :
    KeepsAscii fun c => asciiAlphanumeric c || decide (c ∈ "-_.!~*'()".toList) := by
  intro c hc
  have hall : ∀ d ∈ "-_.!~*'()".toList, d.toNat < 128 ∧ d ≠ '%' :=
    List.all_iff_forall_prop.mp (by decide)
  rcases Bool.or_eq_true _ _ |>.mp hc with halpha | hother
  · have hle : ∀ a b : Char, a ≤ b ↔ a.toNat ≤ b.toNat := fun _ _ => Iff.rfl
    simp only [asciiAlphanumeric, hle, Bool.or_eq_true, Bool.and_eq_true, decide_eq_true_eq] at halpha
    have hz : ('z').toNat = 122 ∧ ('Z').toNat = 90 ∧ ('9').toNat = 57 ∧ ('a').toNat = 97 ∧
        ('A').toNat = 65 ∧ ('0').toNat = 48 := by decide
    refine ⟨by omega, ?_⟩
    rintro rfl
    have hp : ('%').toNat = 37 := by decide
    omega
  · exact hall c (of_decide_eq_true hother)

theorem percentByte_plain (b : UInt8) : ∀ d ∈ percentByte b, d ∉ "!'()*".toList := by
  have hdigits : ∀ n : Fin 16, hexDigit n ∉ "!'()*".toList := by decide
  have hb := b.toNat_lt
  intro d hd
  simp only [percentByte, List.mem_cons, List.not_mem_nil, or_false] at hd
  rcases hd with rfl | rfl | rfl
  · decide
  · exact hdigits ⟨_, by omega⟩
  · exact hdigits ⟨_, by omega⟩

/-- A character beyond ASCII is written byte by byte. -/
theorem queryComponent_beyond {c : Char} (hc : ¬c.toNat < 128) :
    queryComponent [c] = (String.utf8EncodeChar c).flatMap percentByte := by
  have hkeep : (asciiAlphanumeric c || decide (c ∈ "-_.!~*'()".toList)) = false := by
    by_contra hk
    rw [Bool.not_eq_false] at hk
    exact hc (keeps_component c hk).1
  have hencode : encodeURIComponent [c] = (String.utf8EncodeChar c).flatMap percentByte := by
    simp only [encodeURIComponent, percentEncode, List.flatMap_cons, List.flatMap_nil,
      List.append_nil, hkeep, Bool.false_eq_true, ↓reduceIte]
  rw [queryComponent, hencode]
  -- Nothing the Worker replaces afterwards is in an encoded character.
  rw [List.flatMap_congr (g := fun d => [d])]
  · rw [List.flatMap_singleton']
  · intro d hd
    apply if_neg
    obtain ⟨b, -, hd⟩ := List.mem_flatMap.mp hd
    exact percentByte_plain b d hd

/-- How the core writes one byte, and the Worker one character of an encoded component. -/
theorem quote_char (c : Char) :
    ((String.utf8EncodeChar c).flatMap fun b => if safeByte b then [Char.ofNat b.toNat] else percentByte b) =
      queryComponent [c] := by
  by_cases hc : c.toNat < 128
  · have hall : ∀ n : Fin 128, ((String.utf8EncodeChar (Char.ofNat n)).flatMap fun b =>
        if safeByte b then [Char.ofNat b.toNat] else percentByte b) = queryComponent [Char.ofNat n] := by
      decide +kernel
    have h := hall ⟨c.toNat, hc⟩
    rw [Char.ofNat_toNat] at h
    exact h
  · have hbytes : ∀ b ∈ String.utf8EncodeChar c, safeByte b = false := by
      intro b hb
      have hlarge : ¬b.toNat < 128 := fun hlt => hc ((mem_utf8EncodeChar_ascii hlt hb).1 ▸ hlt)
      simp [safeByte, hlarge]
    rw [queryComponent_beyond hc]
    apply List.flatMap_congr
    intro b hb
    rw [hbytes b hb, if_neg Bool.false_ne_true]

theorem queryComponent_flatMap (chars : List Char) :
    queryComponent chars = chars.flatMap fun c => queryComponent [c] := by
  simp only [queryComponent, encodeURIComponent, percentEncode, List.flatMap_assoc,
    List.flatMap_singleton]

theorem quote_eq (text : String) : quote text = String.ofList (queryComponent text.toList) := by
  rw [quote, queryComponent_flatMap, encodeUtf8, List.flatMap_assoc]
  congr 1
  exact List.flatMap_congr fun c _ => quote_char c

/-- Letters, digits and the marks of RFC 3986. -/
def unreserved (c : Char) : Bool := asciiAlphanumeric c || decide (c ∈ "-_.~".toList)

theorem keeps_unreserved : KeepsAscii unreserved := by
  intro c hc
  have hmarks : ∀ d ∈ "-_.~".toList, d ∈ "-_.!~*'()".toList :=
    List.all_iff_forall_prop.mp (by decide)
  apply keeps_component c
  apply (Bool.or_eq_true _ _).mpr
  rcases (Bool.or_eq_true _ _).mp hc with halpha | hmark
  · exact .inl halpha
  · exact .inr (decide_eq_true (hmarks c (of_decide_eq_true hmark)))

theorem queryComponent_eq (chars : List Char) : queryComponent chars = percentEncode unreserved chars := by
  rw [queryComponent_flatMap, percentEncode]
  apply List.flatMap_congr
  intro c _
  by_cases hc : c.toNat < 128
  · have hall : ∀ n : Fin 128, queryComponent [Char.ofNat n] = if unreserved (Char.ofNat n) then
        [Char.ofNat n] else (String.utf8EncodeChar (Char.ofNat n)).flatMap percentByte := by
      decide +kernel
    have h := hall ⟨c.toNat, hc⟩
    rw [Char.ofNat_toNat] at h
    exact h
  · have hkeep : ¬unreserved c = true := fun hk => hc (keeps_unreserved c hk).1
    rw [if_neg hkeep, queryComponent_beyond hc]

theorem not_mem_queryComponent {separator : Char} (hkeep : unreserved separator = false)
    (hpercent : separator ≠ '%') (hdigit : ∀ n < 16, separator ≠ hexDigit n) (chars : List Char) :
    separator ∉ queryComponent chars := by
  intro h
  rw [queryComponent_eq] at h
  rcases mem_percentEncode h with hk | hp | ⟨n, hn, hd⟩
  · rw [hkeep] at hk
    exact Bool.false_ne_true hk
  · exact hpercent hp
  · exact hdigit n hn hd

/-! ## The two orders -/

theorem pairBefore_iff (p q : String × String) : pairBefore p q ↔ toLex p ≤ toLex q :=
  Prod.Lex.toLex_le_toLex.symm

/-- The code units of both parts of a pair. -/
def pairUnits (p : String × String) : JsString ×ₗ JsString := toLex (JsString.ofText p.1, JsString.ofText p.2)

theorem pairUnits_injective {p q : String × String} (h : pairUnits p = pairUnits q) : p = q := by
  obtain ⟨h1, h2⟩ := Prod.mk.inj (toLex.injective h)
  exact Prod.ext (String.toList_inj.mp (codeUnits_injective h1)) (String.toList_inj.mp (codeUnits_injective h2))

theorem pairNotAfter_iff (p q : String × String) : pairNotAfter p q ↔ pairUnits p ≤ pairUnits q := by
  rw [pairUnits, pairUnits, Prod.Lex.toLex_le_toLex]
  unfold pairNotAfter comparePairs
  generalize JsString.ofText p.1 = a, JsString.ofText q.1 = b, JsString.ofText p.2 = c,
    JsString.ofText q.2 = d
  split_ifs with h1 h2 h3 h4
  · exact iff_of_true (by decide) (.inl h1)
  · exact iff_of_false (by decide) fun h => h.elim h1 fun h => absurd h.1 h2.ne'
  · exact iff_of_true (by decide) (.inr ⟨le_antisymm (not_lt.mp h2) (not_lt.mp h1), h3.le⟩)
  · exact iff_of_false (by decide) fun h => h.elim h1 fun h => absurd h4 (not_lt.mpr h.2)
  · exact iff_of_true (by decide) (.inr ⟨le_antisymm (not_lt.mp h2) (not_lt.mp h1), not_lt.mp h4⟩)

instance : Std.Total pairBefore := ⟨fun p q => by rw [pairBefore_iff, pairBefore_iff]; exact le_total _ _⟩
instance : Std.Antisymm pairBefore :=
  ⟨fun p q h h' => toLex.injective (le_antisymm ((pairBefore_iff p q).mp h) ((pairBefore_iff q p).mp h'))⟩
instance : IsTrans (String × String) pairBefore :=
  ⟨fun p q t h h' => (pairBefore_iff p t).mpr (((pairBefore_iff p q).mp h).trans ((pairBefore_iff q t).mp h'))⟩

instance : Std.Total pairNotAfter :=
  ⟨fun p q => by rw [pairNotAfter_iff, pairNotAfter_iff]; exact le_total _ _⟩
instance : Std.Antisymm pairNotAfter :=
  ⟨fun p q h h' => pairUnits_injective
    (le_antisymm ((pairNotAfter_iff p q).mp h) ((pairNotAfter_iff q p).mp h'))⟩
instance : IsTrans (String × String) pairNotAfter :=
  ⟨fun p q t h h' =>
    (pairNotAfter_iff p t).mpr (((pairNotAfter_iff p q).mp h).trans ((pairNotAfter_iff q t).mp h'))⟩

/-- The keys, or under equal keys the values, first differ in a character beyond the BMP on one side
and in one from U+E000 to U+FFFF on the other. -/
def clash (p q : String × String) : Bool :=
  if p.1 = q.1 then straddles p.2.toList q.2.toList else straddles p.1.toList q.1.toList

theorem units_agree_iff (s t : String) :
    (JsString.ofText s < JsString.ofText t ↔ s < t) ↔ straddles s.toList t.toList = false := by
  obtain ⟨hno, hyes⟩ := units_lt s.toList t.toList
  have hlt : ∀ a b : String, a.toList < b.toList ↔ a < b := fun _ _ => Iff.rfl
  rw [hlt] at hno hyes
  cases hs : straddles s.toList t.toList with
  | false => exact iff_of_true (hno hs) rfl
  | true =>
    obtain ⟨hne, hswap⟩ := hyes hs
    refine iff_of_false (fun h => ?_) (by decide)
    have hstr : s ≠ t := fun he => hne (he ▸ rfl)
    rcases lt_or_gt_of_ne hstr with hst | hts
    · exact lt_asymm hst (hswap.mp (h.mpr hst))
    · exact lt_asymm hts (h.mp (hswap.mpr hts))

/-- The orders agree on two pairs unless they clash. -/
theorem orders_agree_iff (p q : String × String) :
    (pairNotAfter p q ↔ pairBefore p q) ↔ clash p q = false := by
  have same : JsString.ofText p.1 = JsString.ofText q.1 ↔ p.1 = q.1 :=
    ⟨fun h => String.toList_inj.mp (codeUnits_injective h), fun h => h ▸ rfl⟩
  rw [pairNotAfter_iff, pairUnits, pairUnits, Prod.Lex.toLex_le_toLex, pairBefore]
  simp only [same, ← not_lt]
  unfold clash
  by_cases hkey : p.1 = q.1
  · simp only [hkey, lt_irrefl, true_and, false_or, ↓reduceIte]
    rw [not_iff_not, units_agree_iff, straddles_comm]
  · simp only [hkey, false_and, or_false, ↓reduceIte]
    exact units_agree_iff p.1 q.1

/-! ## Targets -/

/-- A request target of printable ASCII that starts with a single slash and has no fragment. -/
structure PlainTarget (target : String) : Prop where
  printable : ∀ c ∈ target.toList, 0x20 ≤ c.toNat ∧ c.toNat < 0x7F
  slash : target.toList.head? = some '/'
  single : ¬['/', '/'].isPrefixOf target.toList
  fragment : '#' ∉ target.toList

/-- The path of a target. -/
def targetPath (target : String) : List Char := (splitFirst '?' target.toList).1

/-- The query of a target. -/
def targetQuery (target : String) : List Char := (splitFirst '?' target.toList).2

/-- The pairs of a query. -/
def queryPairs (query : List Char) : List (String × String) :=
  ((query.splitOn '&').filter (· ≠ [])).map formEntry

/-- A pair as both sides write it. -/
def pairText (p : String × String) : List Char := queryComponent p.1.toList ++ '=' :: queryComponent p.2.toList

/-- The pairs of a query written out. -/
def renderPairs (pairs : List (String × String)) : List Char := ['&'].intercalate (pairs.map pairText)

/-- A path with pairs. -/
def render (path : List Char) (pairs : List (String × String)) : String :=
  String.ofList (if renderPairs pairs = [] then path else path ++ '?' :: renderPairs pairs)

theorem plain_not_newline {target : String} (h : PlainTarget target) : includesLineEnd target = false := by
  apply Bool.eq_false_iff.mpr
  intro hend
  obtain ⟨c, hc, hline⟩ := List.any_eq_true.mp hend
  have hrange := h.printable c hc
  rcases (Bool.or_eq_true _ _).mp hline with hn | hr
  · obtain rfl := beq_iff_eq.mp hn
    exact absurd hrange.1 (by decide)
  · obtain rfl := beq_iff_eq.mp hr
    exact absurd hrange.1 (by decide)

/-- What the Worker makes of a plain target. -/
theorem canonicalCoreTarget_plain {target : String} (h : PlainTarget target) :
    canonicalCoreTarget target = .ok
      (render (targetPath target) ((urlSearchParams (targetQuery target)).insertionSort pairNotAfter)) := by
  have hne : target ≠ "" := by
    rintro rfl
    exact absurd h.slash (by decide)
  have hfield : safeField target "Path" = .ok target := by
    rw [safeField, plain_not_newline h, if_neg]
    simp [hne]
  have hstart : ¬(target.toList.head? ≠ some '/' ∨ '#' ∈ target.toList) :=
    not_or.mpr ⟨fun hs => hs h.slash, h.fragment⟩
  unfold canonicalCoreTarget
  rw [hfield]
  simp only [bind, Except.bind, if_neg hstart]
  rfl

theorem splitFirst_none {separator : Char} {text : List Char} (h : separator ∉ text) :
    splitFirst separator text = (text, []) := by
  have hall : ∀ c ∈ text, decide (c ≠ separator) = true := by
    intro c hc
    rw [decide_eq_true_eq]
    rintro rfl
    exact h hc
  rw [splitFirst, List.takeWhile_eq_self_iff.mpr hall, List.dropWhile_eq_nil_iff.mpr hall]
  rfl

/-- `urlsplit` only cuts a plain target at its question mark. -/
theorem urlsplit_plain {target : String} (h : PlainTarget target) : urlsplit target =
    { scheme := "", netloc := "", path := String.ofList (targetPath target),
      query := String.ofList (targetQuery target), fragment := "" } := by
  obtain ⟨rest, hrest⟩ : ∃ rest, target.toList = '/' :: rest := by
    have hslash := h.slash
    cases hl : target.toList with
    | nil => rw [hl] at hslash; cases hslash
    | cons c rest =>
      rw [hl, List.head?_cons, Option.some.injEq] at hslash
      exact ⟨rest, by rw [hslash]⟩
  have hclean : (target.toList.dropWhile fun c => decide (c.toNat ≤ 0x20)).filter
      (fun c => !(c == '\t' || c == '\n' || c == '\r')) = target.toList := by
    have hdrop : (target.toList.dropWhile fun c => decide (c.toNat ≤ 0x20)) = target.toList := by
      rw [hrest, List.dropWhile_cons_of_neg (by decide)]
    rw [hdrop, List.filter_eq_self]
    intro c hc
    have hrange := (h.printable c hc).1
    have hne : ∀ d : Char, d.toNat < 0x20 → c ≠ d := by
      rintro d hd rfl
      omega
    simp [hne '\t' (by decide), hne '\n' (by decide), hne '\r' (by decide)]
  have hscheme : splitScheme target.toList = ([], target.toList) := by
    unfold splitScheme
    apply if_neg
    rw [hrest, List.takeWhile_cons_of_pos (by decide)]
    rintro ⟨-, halpha, -⟩
    rw [List.head?_cons] at halpha
    exact absurd halpha (by decide)
  have hnetloc : splitNetloc target.toList = ([], target.toList) := if_neg h.single
  unfold urlsplit
  simp only [hclean, hscheme, hnetloc, splitFirst_none h.fragment]
  rfl

theorem urlunsplit_eq (path : List Char) (query : String) : urlunsplit (String.ofList path) query =
    String.ofList (if query.toList = [] then path else path ++ '?' :: query.toList) := by
  unfold urlunsplit
  by_cases hnil : query = ""
  · rw [if_pos hnil, hnil, if_pos String.toList_empty]
  · rw [if_neg hnil, if_neg fun he => hnil (String.toList_eq_nil_iff.mp he)]
    apply String.toList_inj.mp
    simp

/-- What the core makes of a plain target. -/
theorem canonicalTarget_plain (P : Primitives) {target : String} (h : PlainTarget target) :
    P.withUrllib.canonicalTarget target = some
      (render (targetPath target) ((queryPairs (targetQuery target)).insertionSort pairBefore)) := by
  have hstart : ¬(target.toList.head? ≠ some '/' ∨ containsNewline target = true) := by
    apply not_or.mpr ⟨fun hs => hs h.slash, _⟩
    exact Bool.not_eq_true _ ▸ plain_not_newline h
  have hquery : ∀ c ∈ targetQuery target, c.toNat < 128 := by
    intro c hc
    have hin : c ∈ target.toList :=
      (List.dropWhile_sublist _).subset ((List.drop_sublist 1 _).subset hc)
    have hrange := h.printable c hin
    omega
  have hpath : String.ofList (targetPath target) ≠ "" := by
    intro he
    have hnil : targetPath target = [] := by
      rw [← String.toList_ofList (l := targetPath target), he]
      rfl
    have hslash := h.slash
    cases hl : target.toList with
    | nil => rw [hl] at hslash; cases hslash
    | cons c rest =>
      rw [hl, List.head?_cons, Option.some.injEq] at hslash
      subst hslash
      rw [targetPath, splitFirst, hl, List.takeWhile_cons_of_pos (by decide)] at hnil
      exact List.cons_ne_nil _ _ hnil
  generalize hpairs : (queryPairs (targetQuery target)).insertionSort pairBefore = pairs
  have htext : ("&".intercalate (pairs.map fun p => Signing.quote p.1 ++ "=" ++ Signing.quote p.2)).toList =
      renderPairs pairs := by
    have hamp : "&".toList = ['&'] := by decide
    have hpair : (String.toList ∘ fun p : String × String =>
        Signing.quote p.1 ++ "=" ++ Signing.quote p.2) = pairText := by
      funext p
      simp [quote_eq, pairText]
    rw [String.toList_intercalate, List.map_map, hamp, hpair, renderPairs]
  unfold Primitives.canonicalTarget
  rw [if_neg hstart]
  simp only [Primitives.withUrllib, urlsplit_plain h, parseQsl_ascii hquery, if_neg hpath]
  rw [if_neg (by simp), ← queryPairs, hpairs, urlunsplit_eq, htext]
  rfl

/-! ## What a target can be read back from -/

theorem pairText_injective : Function.Injective pairText := by
  intro p q h
  have hno : ∀ chars : List Char, ∀ c ∈ queryComponent chars, decide (c ≠ '=') = true := by
    intro chars c hc
    rw [decide_eq_true_eq]
    rintro rfl
    exact not_mem_queryComponent (by decide) (by decide) (by decide) chars hc
  have hname : ∀ p : String × String, (pairText p).takeWhile (· ≠ '=') = queryComponent p.1.toList := by
    intro p
    rw [pairText, List.takeWhile_append_of_pos (hno _), List.takeWhile_cons_of_neg (by decide), List.append_nil]
  have hfirst : queryComponent p.1.toList = queryComponent q.1.toList := by rw [← hname, h, hname]
  have hsecond : queryComponent p.2.toList = queryComponent q.2.toList := by
    rw [pairText, pairText, hfirst] at h
    exact (List.cons.inj (List.append_cancel_left h)).2
  rw [queryComponent_eq, queryComponent_eq] at hfirst hsecond
  exact Prod.ext (String.toList_inj.mp (percentEncode_injective keeps_unreserved hfirst))
    (String.toList_inj.mp (percentEncode_injective keeps_unreserved hsecond))

theorem amp_not_mem_pairText (p : String × String) : '&' ∉ pairText p := by
  have hno : ∀ chars : List Char, '&' ∉ queryComponent chars :=
    not_mem_queryComponent (by decide) (by decide) (by decide)
  rw [pairText, List.mem_append, List.mem_cons, not_or, not_or]
  exact ⟨hno _, by decide, hno _⟩

theorem renderPairs_injective {a b : List (String × String)} (h : renderPairs a = renderPairs b) : a = b := by
  have hsplit : ∀ l : List (String × String), l ≠ [] →
      (renderPairs l).splitOn '&' = l.map pairText := by
    intro l hl
    apply List.splitOn_intercalate '&' _ (by simpa using hl)
    intro text htext
    obtain ⟨p, -, rfl⟩ := List.mem_map.mp htext
    exact amp_not_mem_pairText p
  have hnil : ∀ l : List (String × String), renderPairs l = [] → l = [] := by
    intro l hl
    by_contra hne
    have hs := hsplit l hne
    rw [hl] at hs
    cases l with
    | nil => exact hne rfl
    | cons p l =>
      have hp : [] = pairText p := (List.cons.inj hs).1
      exact List.append_ne_nil_of_right_ne_nil _ (List.cons_ne_nil _ _) hp.symm
  by_cases ha : a = []
  · subst ha
    exact (hnil b h.symm).symm
  · by_cases hb : b = []
    · subst hb
      exact absurd (hnil a h) ha
    · apply List.map_injective_iff.mpr pairText_injective
      rw [← hsplit a ha, h, hsplit b hb]

/-- Two targets on one path are the same only when they write the same pairs. -/
theorem render_injective {path : List Char} {a b : List (String × String)} (h : render path a = render path b) :
    a = b := by
  apply renderPairs_injective
  unfold render at h
  have hlist := String.ofList_inj.mp h
  generalize renderPairs a = x at hlist ⊢
  generalize renderPairs b = y at hlist ⊢
  split_ifs at hlist with hx hy hy
  · rw [hx, hy]
  · exact absurd (List.self_eq_append_right.mp hlist) (List.cons_ne_nil _ _)
  · exact absurd (List.append_right_eq_self.mp hlist) (List.cons_ne_nil _ _)
  · exact (List.cons.inj (List.append_cancel_left hlist)).2

/-! ## Agreement -/

/-- Both sides canonicalise the target to one text. -/
theorem targets_agree_iff (P : Primitives) {target : String} (h : PlainTarget target) :
    (∃ text, canonicalCoreTarget target = .ok text ∧ P.withUrllib.canonicalTarget target = some text) ↔
      (targetQuery target).head? ≠ some '?' ∧
        ∀ p ∈ queryPairs (targetQuery target), ∀ q ∈ queryPairs (targetQuery target), clash p q = false := by
  have hsame : (∃ text, canonicalCoreTarget target = .ok text ∧ P.withUrllib.canonicalTarget target = some text) ↔
      (urlSearchParams (targetQuery target)).insertionSort pairNotAfter =
        (queryPairs (targetQuery target)).insertionSort pairBefore := by
    rw [canonicalCoreTarget_plain h, canonicalTarget_plain P h]
    constructor
    · rintro ⟨text, hworker, hcore⟩
      exact render_injective ((Except.ok.inj hworker).trans (Option.some.inj hcore).symm)
    · intro heq
      exact ⟨_, rfl, by rw [heq]⟩
  rw [hsame]
  generalize targetQuery target = query
  have hparams : query.head? ≠ some '?' → urlSearchParams query = queryPairs query := by
    intro hhead
    simp only [urlSearchParams, if_neg hhead]
    rfl
  constructor
  · intro heq
    have hperm : (urlSearchParams query).Perm (queryPairs query) := by
      have hleft := List.perm_insertionSort pairNotAfter (urlSearchParams query)
      have hright := List.perm_insertionSort pairBefore (queryPairs query)
      exact hleft.symm.trans (heq ▸ hright)
    have hhead := urlSearchParams_perm.mp hperm
    rw [hparams hhead] at heq
    exact ⟨hhead, fun p hp q hq =>
      (orders_agree_iff p q).mp ((insertionSort_eq_iff _).mp heq p hp q hq)⟩
  · rintro ⟨hhead, hclash⟩
    rw [hparams hhead]
    exact (insertionSort_eq_iff _).mpr fun p hp q hq => (orders_agree_iff p q).mpr (hclash p hp q hq)

/-- The core's names for the fields the Worker signs. -/
def coreFields (f : CoreRequestFields) : SignedFields where
  keyId := f.keyId
  method := f.method
  pathAndQuery := f.pathAndQuery
  timestamp := f.timestamp
  nonce := f.nonce
  bodySha256 := f.bodySha256
  requestId := f.requestId
  idempotencyKey := f.idempotencyKey
  ownerId := f.ownerKey

/-- Every field but the target passes the checks of both sides. -/
structure ValidFields (P : Primitives) (f : CoreRequestFields) : Prop where
  required : ∀ value ∈ [f.keyId, f.method, f.timestamp, f.nonce, f.bodySha256, f.requestId, f.ownerKey],
    value ≠ "" ∧ includesLineEnd value = false
  optional : includesLineEnd f.idempotencyKey = false
  digest : validSha256 (P.lower f.bodySha256) = true

/-- Both sides have one target and one message for the request. -/
def SameMessage (P : Primitives) (f : CoreRequestFields) : Prop :=
  ∃ target message,
    canonicalCoreTarget f.pathAndQuery = .ok target ∧
      P.withUrllib.canonicalTarget f.pathAndQuery = some target ∧
      canonicalCoreRequest P.upper P.lower f = .ok message ∧
      P.withUrllib.canonicalRequest (coreFields f) = some message

theorem hexDigit_iff (c : Char) :
    (('a' ≤ c && c ≤ 'f') || ('0' ≤ c && c ≤ '9')) = Store.hexDigit c := by
  by_cases hc : c.toNat < 128
  · have hall : ∀ n : Fin 128, (('a' ≤ Char.ofNat n && Char.ofNat n ≤ 'f') ||
        ('0' ≤ Char.ofNat n && Char.ofNat n ≤ '9')) = Store.hexDigit (Char.ofNat n) := by
      decide +kernel
    have h := hall ⟨c.toNat, hc⟩
    rw [Char.ofNat_toNat] at h
    exact h
  · have hle : ∀ a b : Char, a ≤ b ↔ a.toNat ≤ b.toNat := fun _ _ => Iff.rfl
    have hf : ¬c ≤ 'f' := fun h => hc (lt_of_le_of_lt ((hle _ _).mp h) (by decide))
    have hnine : ¬c ≤ '9' := fun h => hc (lt_of_le_of_lt ((hle _ _).mp h) (by decide))
    have hascii : ∀ d ∈ "0123456789abcdef".toList, d.toNat < 128 :=
      List.all_iff_forall_prop.mp (by decide)
    have hno : Store.hexDigit c = false := by
      apply Bool.eq_false_iff.mpr
      intro hin
      exact hc (hascii c (List.contains_iff_mem.mp hin))
    simp [hno, hf, hnine]

theorem validBodyDigest_eq (digest : String) : validBodyDigest digest = validSha256 digest := by
  unfold validBodyDigest validSha256
  congr 1
  apply congrArg (digest.toList.all ·)
  funext c
  exact hexDigit_iff c

/-- The message around a target. -/
def messageWith (P : Primitives) (f : CoreRequestFields) (target : String) : String :=
  "\n".intercalate ["v2", f.keyId, P.upper f.method, target, f.timestamp, f.nonce, P.lower f.bodySha256,
    f.requestId, f.idempotencyKey, f.ownerKey]

theorem canonicalCoreRequest_valid {P : Primitives} {f : CoreRequestFields} (h : ValidFields P f)
    {target : String} (ht : canonicalCoreTarget f.pathAndQuery = .ok target) :
    canonicalCoreRequest P.upper P.lower f = .ok (messageWith P f target) := by
  have hfield : ∀ value ∈ [f.keyId, f.method, f.timestamp, f.nonce, f.bodySha256, f.requestId, f.ownerKey],
      ∀ label, safeField value label = .ok value := by
    intro value hv label
    obtain ⟨hne, hline⟩ := h.required value hv
    rw [safeField, if_neg]
    simp [hne, hline]
  have hoptional : ∀ label, safeOptionalField f.idempotencyKey label = .ok f.idempotencyKey := by
    intro label
    rw [safeOptionalField, h.optional, if_neg Bool.false_ne_true]
  simp only [List.mem_cons, List.not_mem_nil, or_false, forall_eq_or_imp, forall_eq] at hfield
  obtain ⟨hkey, hmethod, htime, hnonce, hdigest, hrequest, howner⟩ := hfield
  unfold canonicalCoreRequest
  simp only [hkey, hmethod, htime, hnonce, hdigest, hrequest, howner, hoptional, ht, bind, Except.bind,
    validBodyDigest_eq, h.digest, Bool.true_eq_false, ↓reduceIte]
  rfl

theorem canonicalRequest_valid {P : Primitives} {f : CoreRequestFields} (h : ValidFields P f)
    {target : String} (ht : P.withUrllib.canonicalTarget f.pathAndQuery = some target) :
    P.withUrllib.canonicalRequest (coreFields f) = some (messageWith P f target) := by
  have hfield : ∀ value ∈ [f.keyId, f.method, f.timestamp, f.nonce, f.bodySha256, f.requestId, f.ownerKey],
      Primitives.field value = some value := by
    intro value hv
    obtain ⟨hne, hline⟩ := h.required value hv
    have hnew : containsNewline value = false := hline
    rw [Primitives.field, if_neg]
    simp [hne, hnew]
  have hoptional : Primitives.optionalField f.idempotencyKey = some f.idempotencyKey := by
    have hnew : containsNewline f.idempotencyKey = false := h.optional
    rw [Primitives.optionalField, hnew, if_neg Bool.false_ne_true]
  simp only [List.mem_cons, List.not_mem_nil, or_false, forall_eq_or_imp, forall_eq] at hfield
  obtain ⟨hkey, hmethod, htime, hnonce, hdigest, hrequest, howner⟩ := hfield
  have hlower : validSha256 (P.withUrllib.lower f.bodySha256) = true := h.digest
  unfold Primitives.canonicalRequest
  simp only [coreFields, hkey, hmethod, htime, hnonce, hdigest, hrequest, howner, hoptional, ht, hlower,
    bind, Option.bind_some, ↓reduceIte]
  rfl

/-- The Worker and the core write one message for a request exactly when its query does not start
with a second question mark and no two of its pairs clash. -/
theorem same_message_iff (P : Primitives) (f : CoreRequestFields) (hvalid : ValidFields P f)
    (hplain : PlainTarget f.pathAndQuery) :
    SameMessage P f ↔ (targetQuery f.pathAndQuery).head? ≠ some '?' ∧
      ∀ p ∈ queryPairs (targetQuery f.pathAndQuery), ∀ q ∈ queryPairs (targetQuery f.pathAndQuery),
        clash p q = false := by
  rw [← targets_agree_iff P hplain]
  constructor
  · rintro ⟨target, message, hworker, hcore, -, -⟩
    exact ⟨target, hworker, hcore⟩
  · rintro ⟨target, hworker, hcore⟩
    exact ⟨target, messageWith P f target, hworker, hcore, canonicalCoreRequest_valid hvalid hworker,
      canonicalRequest_valid hvalid hcore⟩

/-- A request for a plain target, with everything else valid. -/
def plainRequest (target : String) : CoreRequestFields where
  keyId := "key-1"
  method := "GET"
  pathAndQuery := target
  timestamp := "1000"
  nonce := "nonce-1"
  bodySha256 := "e3b0c44298fc1c149afbf4c8996fb92427ae41e4649b934ca495991b7852b855"
  requestId := "request-1"
  idempotencyKey := "idempotency-1"
  ownerKey := "owner-1"

theorem plainRequest_valid (target : String) : ValidFields samplePrimitives (plainRequest target) where
  required := by
    have h : ∀ value ∈ ["key-1", "GET", "1000", "nonce-1",
        "e3b0c44298fc1c149afbf4c8996fb92427ae41e4649b934ca495991b7852b855", "request-1", "owner-1"],
        value ≠ "" ∧ includesLineEnd value = false := by decide
    exact h
  optional := show includesLineEnd "idempotency-1" = false by decide
  digest := show validSha256 "e3b0c44298fc1c149afbf4c8996fb92427ae41e4649b934ca495991b7852b855" = true by
    decide +kernel

/-- A space, a plus sign, an invalid escape and pairs out of order. -/
def orderedTarget : String := "/v1/jobs?b=1+2&a=%C3%A9%FF&a=%zz"

theorem orderedTarget_plain : PlainTarget orderedTarget where
  printable := List.all_iff_forall_prop.mp (by decide)
  slash := by decide
  single := by decide
  fragment := by decide

theorem same_message_ordered : SameMessage samplePrimitives (plainRequest orderedTarget) :=
  (same_message_iff samplePrimitives (plainRequest orderedTarget) (plainRequest_valid _) orderedTarget_plain).mpr
    (by decide +kernel)

/-- One key beyond the BMP and one from the private use area. -/
def clashingTarget : String := "/v1/jobs?%F0%9F%98%80=1&%EE%80%80=2"

theorem clashingTarget_plain : PlainTarget clashingTarget where
  printable := List.all_iff_forall_prop.mp (by decide)
  slash := by decide
  single := by decide
  fragment := by decide

/-- The Worker signs the emoji first and the core the private use character. -/
theorem messages_differ_clashing :
    ¬∀ (P : Primitives) (f : CoreRequestFields), ValidFields P f → PlainTarget f.pathAndQuery → SameMessage P f := by
  intro h
  obtain ⟨target, message, hworker, hcore, -, -⟩ :=
    h samplePrimitives (plainRequest clashingTarget) (plainRequest_valid _) clashingTarget_plain
  have hemoji : canonicalCoreTarget clashingTarget = .ok "/v1/jobs?%F0%9F%98%80=1&%EE%80%80=2" := by
    decide +kernel
  have hprivate : samplePrimitives.withUrllib.canonicalTarget clashingTarget =
      some "/v1/jobs?%EE%80%80=2&%F0%9F%98%80=1" := by decide +kernel
  have hw : target = "/v1/jobs?%F0%9F%98%80=1&%EE%80%80=2" := Except.ok.inj (hworker.symm.trans hemoji)
  have hc : target = "/v1/jobs?%EE%80%80=2&%F0%9F%98%80=1" := Option.some.inj (hcore.symm.trans hprivate)
  exact absurd (hw.symm.trans hc) (by decide)

end LilTweak.Signing
