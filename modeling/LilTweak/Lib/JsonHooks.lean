import LilTweak.Lib.PyJsonText
import LilTweak.Lib.Trim
import Mathlib

/-!
# `json.loads` and its hook

The reader takes the function that makes a value of the fields of an object, which may refuse them. A
stricter hook accepts no text the other refuses, and both read the same value. A reader leaves the end
of its text, so a text read as an object stands between braces.
-/

namespace LilTweak.Lib

namespace PyJson

/-- What makes a value of the fields of an object. -/
abbrev Hook := List (PyStr × PyJson) → Option PyJson

/-- Without a hook the last of some equal keys counts, at the place of the first. -/
def dictHook : Hook := fun fields =>
  some (.obj (fields.foldl (fun acc field => setKey acc field.1 field.2) []))
where
  /-- `acc[key] = value`. -/
  setKey : List (PyStr × PyJson) → PyStr → PyJson → List (PyStr × PyJson)
    | [], key, value => [(key, value)]
    | (k, v) :: rest, key, value => if k = key then (k, value) :: rest else (k, v) :: setKey rest key value

/-- A literal name, one of the constants that are no numbers, or a number. -/
def readConstant (text : List Char) : Option (PyJson × List Char) :=
  if "NaN".toList.isPrefixOf text then some (.float "NaN".toList, text.drop 3)
  else if "Infinity".toList.isPrefixOf text then some (.float "Infinity".toList, text.drop 8)
  else if "-Infinity".toList.isPrefixOf text then some (.float "-Infinity".toList, text.drop 9)
  else readAtom text

section
variable (hook : Hook)

mutual
/-- A value, and what follows it. The first argument bounds the depth of the recursion. -/
def readValueBy : Nat → List Char → Option (PyJson × List Char)
  | 0, _ => none
  | _, [] => none
  | n + 1, c :: rest =>
    if c = '"' then (readString rest).map fun r => (.str r.1, r.2)
    else if c = '[' then
      if (skip rest).head? = some ']' then some (.arr [], (skip rest).tail)
      else (readItemsBy n (skip rest)).map fun r => (.arr r.1, r.2)
    else if c = '\x7b' then
      if (skip rest).head? = some '\x7d' then (hook []).map fun v => (v, (skip rest).tail)
      else (readFieldsBy n (skip rest)).bind fun r => (hook r.1).map fun v => (v, r.2)
    else readConstant (c :: rest)
/-- The items of an array up to its bracket. -/
def readItemsBy : Nat → List Char → Option (List PyJson × List Char)
  | 0, _ => none
  | n + 1, text =>
    (readValueBy n text).bind fun r =>
      if (skip r.2).head? = some ']' then some ([r.1], (skip r.2).tail)
      else if (skip r.2).head? = some ',' then
        (readItemsBy n (skip (skip r.2).tail)).map fun more => (r.1 :: more.1, more.2)
      else none
/-- The fields of an object up to its brace. -/
def readFieldsBy : Nat → List Char → Option (List (PyStr × PyJson) × List Char)
  | 0, _ => none
  | n + 1, text =>
    if text.head? = some '"' then
      (readString text.tail).bind fun key =>
        if (skip key.2).head? = some ':' then
          (readValueBy n (skip (skip key.2).tail)).bind fun r =>
            if (skip r.2).head? = some '\x7d' then some ([(key.1, r.1)], (skip r.2).tail)
            else if (skip r.2).head? = some ',' then
              (readFieldsBy n (skip (skip r.2).tail)).map fun more => ((key.1, r.1) :: more.1, more.2)
            else none
        else none
    else none
end

/-- `json.loads(text, object_pairs_hook=hook)`. -/
def loadsBy (text : List Char) : Option PyJson :=
  match readValueBy hook (2 * text.length + 2) (skip text) with
  | some (v, rest) => if skip rest = [] then some v else none
  | none => none

end

/-! ## A stricter hook -/

section
variable {f g : Hook} (hfg : ∀ fields v, f fields = some v → g fields = some v)
include hfg

/-- What is read with the stricter hook is read with the other. -/
theorem readBy_mono (n : Nat) :
    (∀ text r, readValueBy f n text = some r → readValueBy g n text = some r) ∧
      (∀ text r, readItemsBy f n text = some r → readItemsBy g n text = some r) ∧
      ∀ text r, readFieldsBy f n text = some r → readFieldsBy g n text = some r := by
  induction n with
  | zero =>
    refine ⟨fun text r h => ?_, fun text r h => ?_, fun text r h => ?_⟩
    · rw [readValueBy] at h
      cases h
    · rw [readItemsBy] at h
      cases h
    · rw [readFieldsBy] at h
      cases h
  | succ n ih =>
    obtain ⟨hvalue, hitems, hfields⟩ := ih
    refine ⟨fun text r h => ?_, fun text r h => ?_, fun text r h => ?_⟩
    · cases text with
      | nil =>
        rw [readValueBy] at h
        · cases h
        · exact Nat.succ_ne_zero n
      | cons c rest =>
        rw [readValueBy] at h ⊢
        split
        · next hc => rwa [if_pos hc] at h
        next hc =>
        rw [if_neg hc] at h
        split
        · next hb =>
          rw [if_pos hb] at h
          split
          · next he => rwa [if_pos he] at h
          · next he =>
            rw [if_neg he, Option.map_eq_some_iff] at h
            obtain ⟨items, hread, hr⟩ := h
            rw [hitems _ _ hread, ← hr]
            rfl
        next hb =>
        rw [if_neg hb] at h
        split
        · next ho =>
          rw [if_pos ho] at h
          split
          · next he =>
            rw [if_pos he, Option.map_eq_some_iff] at h
            obtain ⟨v, hv, hr⟩ := h
            rw [hfg _ _ hv, ← hr]
            rfl
          · next he =>
            rw [if_neg he, Option.bind_eq_some_iff] at h
            obtain ⟨fields, hread, hmap⟩ := h
            rw [Option.map_eq_some_iff] at hmap
            obtain ⟨v, hv, hr⟩ := hmap
            rw [hfields _ _ hread, Option.bind_some, hfg _ _ hv, ← hr]
            rfl
        · next ho => rwa [if_neg ho] at h
    · rw [readItemsBy, Option.bind_eq_some_iff] at h
      obtain ⟨v, hread, h⟩ := h
      rw [readItemsBy, hvalue _ _ hread, Option.bind_some]
      split
      · next he => rwa [if_pos he] at h
      next he =>
      rw [if_neg he] at h
      split
      · next hm =>
        rw [if_pos hm, Option.map_eq_some_iff] at h
        obtain ⟨more, hmore, hr⟩ := h
        rw [hitems _ _ hmore, ← hr]
        rfl
      · next hm =>
        rw [if_neg hm] at h
        cases h
    · rw [readFieldsBy] at h ⊢
      split
      · next hq =>
        rw [if_pos hq, Option.bind_eq_some_iff] at h
        obtain ⟨key, hkey, h⟩ := h
        rw [hkey, Option.bind_some]
        split
        · next hc =>
          rw [if_pos hc, Option.bind_eq_some_iff] at h
          obtain ⟨v, hread, h⟩ := h
          rw [hvalue _ _ hread, Option.bind_some]
          split
          · next he => rwa [if_pos he] at h
          next he =>
          rw [if_neg he] at h
          split
          · next hm =>
            rw [if_pos hm, Option.map_eq_some_iff] at h
            obtain ⟨more, hmore, hr⟩ := h
            rw [hfields _ _ hmore, ← hr]
            rfl
          · next hm =>
            rw [if_neg hm] at h
            cases h
        · next hc =>
          rw [if_neg hc] at h
          cases h
      · next hq =>
        rw [if_neg hq] at h
        cases h

theorem loadsBy_mono {text : List Char} {v : PyJson} (h : loadsBy f text = some v) : loadsBy g text = some v := by
  unfold loadsBy at h ⊢
  split at h
  · next v' rest hread => rwa [(readBy_mono hfg _).1 _ _ hread]
  · cases h

end

/-! ## The hook of a dictionary -/

theorem setKey_of_not_mem {acc : List (PyStr × PyJson)} {key : PyStr} (h : key ∉ acc.map Prod.fst) (value : PyJson) :
    dictHook.setKey acc key value = acc ++ [(key, value)] := by
  induction acc with
  | nil => rfl
  | cons entry rest ih =>
    rw [List.map_cons, List.mem_cons, not_or] at h
    rw [dictHook.setKey, if_neg fun he => h.1 he.symm, ih h.2]
    rfl

/-- Distinct keys stay as they are. -/
theorem dictHook_of_nodup {fields : List (PyStr × PyJson)} (h : (fields.map Prod.fst).Nodup) :
    dictHook fields = some (.obj fields) := by
  have hfold : ∀ (rest acc : List (PyStr × PyJson)), ((acc ++ rest).map Prod.fst).Nodup →
      rest.foldl (fun acc field => dictHook.setKey acc field.1 field.2) acc = acc ++ rest := by
    intro rest
    induction rest with
    | nil =>
      intro acc _
      exact (List.append_nil acc).symm
    | cons field rest ih =>
      intro acc hnodup
      have hnew : field.1 ∉ acc.map Prod.fst := by
        rw [List.map_append, List.map_cons] at hnodup
        intro hmem
        exact (List.nodup_append.mp hnodup).2.2 _ hmem _ List.mem_cons_self rfl
      rw [List.foldl_cons, setKey_of_not_mem hnew]
      have hsplit : acc ++ field :: rest = acc ++ [field] ++ rest := (List.append_cons acc field rest)
      rw [ih _ (by rwa [hsplit] at hnodup), hsplit]
  exact congrArg (fun l => some (PyJson.obj l)) (hfold fields [] h)

/-! ## What is left of a text -/

theorem skip_suffix (text : List Char) : skip text <:+ text := List.dropWhile_suffix _

theorem tail_skip_suffix {text rest : List Char} (h : text <:+ rest) : (skip text).tail <:+ rest :=
  (List.tail_suffix _).trans ((skip_suffix text).trans h)

/-- A scan that goes on behind some characters leaves the end of the whole. -/
theorem suffix_of_map {α β : Type*} {read : Option (α × List Char)} {f : α → β} {text : List Char}
    (h : ∀ r, read = some r → r.2 <:+ text) (r : β × List Char) (hr : (read.map fun r => (f r.1, r.2)) = some r) :
    r.2 <:+ text := by
  rw [Option.map_eq_some_iff] at hr
  obtain ⟨r', hread, hr⟩ := hr
  rw [← hr]
  exact h r' hread

theorem scanString_suffix (text : List Char) : ∀ r, scanString text = some r → r.2 <:+ text := by
  fun_induction scanString text with
  | case2 rest =>
    intro r h
    cases h
    exact List.suffix_cons _ _
  | case4 i j k l rest n hread hq ih =>
    have hsuffix : rest <:+ '\\' :: 'u' :: i :: j :: k :: l :: rest := List.suffix_append ['\\', 'u', i, j, k, l] rest
    exact suffix_of_map fun r h => (ih r h).trans hsuffix
  | case7 e rest hu code hread hq ih =>
    have hsuffix : rest <:+ '\\' :: e :: rest := List.suffix_append ['\\', e] rest
    exact suffix_of_map fun r h => (ih r h).trans hsuffix
  | case10 c rest hq hb hlow ih => exact suffix_of_map fun r h => (ih r h).trans (List.suffix_cons c rest)
  | case1 | case3 | case5 | case6 | case8 | case9 =>
    intro r h
    cases h

theorem readString_suffix {text : List Char} {r : PyStr × List Char} (h : readString text = some r) : r.2 <:+ text :=
  suffix_of_map (scanString_suffix text) r h

theorem readNumber_suffix {text : List Char} {r : PyJson × List Char} (h : readNumber text = some r) : r.2 <:+ text := by
  unfold readNumber at h
  extract_lets minus body digits whole rest fraction exponent at h
  have hbody : body <:+ text := by
    by_cases hminus : minus
    · show (if minus then text.tail else text) <:+ text
      rw [if_pos hminus]
      exact List.tail_suffix text
    · show (if minus then text.tail else text) <:+ text
      rw [if_neg hminus]
  have hrest : rest <:+ text := (List.drop_suffix _ _).trans hbody
  by_cases hwhole : whole = []
  · rw [if_pos hwhole] at h
    cases h
  rw [if_neg hwhole] at h
  by_cases hint : fraction = [] ∧ exponent = []
  · rw [if_pos hint] at h
    by_cases hlong : 4300 < whole.length
    · rw [if_pos hlong] at h
      cases h
    · rw [if_neg hlong] at h
      rw [← Option.some.inj h]
      exact hrest
  · rw [if_neg hint] at h
    rw [← Option.some.inj h]
    exact (List.drop_suffix _ _).trans ((List.drop_suffix _ _).trans hrest)

theorem readAtom_suffix {text : List Char} {r : PyJson × List Char} (h : readAtom text = some r) : r.2 <:+ text := by
  unfold readAtom at h
  split at h
  · cases h
    exact List.drop_suffix _ _
  split at h
  · cases h
    exact List.drop_suffix _ _
  split at h
  · cases h
    exact List.drop_suffix _ _
  · exact readNumber_suffix h

theorem readConstant_suffix {text : List Char} {r : PyJson × List Char} (h : readConstant text = some r) :
    r.2 <:+ text := by
  unfold readConstant at h
  split at h
  · cases h
    exact List.drop_suffix _ _
  split at h
  · cases h
    exact List.drop_suffix _ _
  split at h
  · cases h
    exact List.drop_suffix _ _
  · exact readAtom_suffix h

/-- Every reader leaves the end of its text, and what reads fields stops behind a brace. -/
theorem readBy_suffix (hook : Hook) (n : Nat) :
    (∀ text r, readValueBy hook n text = some r → r.2 <:+ text) ∧
      (∀ text r, readItemsBy hook n text = some r → r.2 <:+ text) ∧
      ∀ text r, readFieldsBy hook n text = some r → '\x7d' :: r.2 <:+ text := by
  induction n with
  | zero =>
    refine ⟨fun text r h => ?_, fun text r h => ?_, fun text r h => ?_⟩
    · rw [readValueBy] at h
      cases h
    · rw [readItemsBy] at h
      cases h
    · rw [readFieldsBy] at h
      cases h
  | succ n ih =>
    obtain ⟨hvalue, hitems, hfields⟩ := ih
    refine ⟨fun text r h => ?_, fun text r h => ?_, fun text r h => ?_⟩
    · cases text with
      | nil =>
        rw [readValueBy] at h
        · cases h
        · exact Nat.succ_ne_zero n
      | cons c rest =>
        have hrest : rest <:+ c :: rest := List.suffix_cons c rest
        rw [readValueBy] at h
        split at h
        · exact suffix_of_map (fun r hr => (readString_suffix hr).trans hrest) r h
        split at h
        · split at h
          · cases h
            exact tail_skip_suffix hrest
          · exact suffix_of_map (fun r hr => (hitems _ _ hr).trans ((skip_suffix rest).trans hrest)) r h
        split at h
        · split at h
          · rw [Option.map_eq_some_iff] at h
            obtain ⟨v, -, hr⟩ := h
            rw [← hr]
            exact tail_skip_suffix hrest
          · rw [Option.bind_eq_some_iff] at h
            obtain ⟨fields, hread, hmap⟩ := h
            rw [Option.map_eq_some_iff] at hmap
            obtain ⟨v, -, hr⟩ := hmap
            rw [← hr]
            exact (List.suffix_cons _ _).trans ((hfields _ _ hread).trans ((skip_suffix rest).trans hrest))
        · exact readConstant_suffix h
    · rw [readItemsBy, Option.bind_eq_some_iff] at h
      obtain ⟨v, hread, h⟩ := h
      have hv := hvalue _ _ hread
      split at h
      · cases h
        exact tail_skip_suffix hv
      split at h
      · rw [Option.map_eq_some_iff] at h
        obtain ⟨more, hmore, hr⟩ := h
        rw [← hr]
        exact (hitems _ _ hmore).trans ((skip_suffix _).trans (tail_skip_suffix hv))
      · cases h
    · rw [readFieldsBy] at h
      split at h
      swap
      · cases h
      rw [Option.bind_eq_some_iff] at h
      obtain ⟨key, hkey, h⟩ := h
      have hk : key.2 <:+ text := (readString_suffix hkey).trans (List.tail_suffix text)
      split at h
      swap
      · cases h
      rw [Option.bind_eq_some_iff] at h
      obtain ⟨v, hread, h⟩ := h
      have hv : v.2 <:+ text := (hvalue _ _ hread).trans ((skip_suffix _).trans (tail_skip_suffix hk))
      split at h
      · next hclose =>
        cases h
        have hcons : '\x7d' :: (skip v.2).tail = skip v.2 := List.cons_head?_tail hclose
        rw [hcons]
        exact (skip_suffix _).trans hv
      split at h
      · rw [Option.map_eq_some_iff] at h
        obtain ⟨more, hmore, hr⟩ := h
        rw [← hr]
        exact (hfields _ _ hmore).trans ((skip_suffix _).trans (tail_skip_suffix hv))
      · cases h

/-! ## The braces of an object -/

/-- What may stand between the tokens. -/
def jsonSpace (c : Char) : Bool := c = ' ' || c = '\t' || c = '\n' || c = '\r'

theorem readNumber_ne_obj {text rest : List Char} {fields : List (PyStr × PyJson)} :
    readNumber text ≠ some (.obj fields, rest) := by
  intro h
  unfold readNumber at h
  extract_lets minus body digits whole rest' fraction exponent at h
  by_cases hwhole : whole = []
  · rw [if_pos hwhole] at h
    cases h
  rw [if_neg hwhole] at h
  by_cases hint : fraction = [] ∧ exponent = []
  · rw [if_pos hint] at h
    by_cases hlong : 4300 < whole.length
    · rw [if_pos hlong] at h
      cases h
    · rw [if_neg hlong] at h
      cases congrArg Prod.fst (Option.some.inj h)
  · rw [if_neg hint] at h
    cases congrArg Prod.fst (Option.some.inj h)

theorem readConstant_ne_obj {text rest : List Char} {fields : List (PyStr × PyJson)} :
    readConstant text ≠ some (.obj fields, rest) := by
  intro h
  unfold readConstant readAtom at h
  repeat'
    split at h
    · cases h
  exact readNumber_ne_obj h

/-- What is read as an object begins and ends with a brace. -/
theorem braces_of_readValueBy {hook : Hook} {n : Nat} {text rest : List Char} {fields : List (PyStr × PyJson)}
    (h : readValueBy hook n text = some (.obj fields, rest)) : text.head? = some '\x7b' ∧ '\x7d' :: rest <:+ text := by
  cases n with
  | zero =>
    rw [readValueBy] at h
    cases h
  | succ n =>
    cases text with
    | nil =>
      rw [readValueBy] at h
      · cases h
      · exact Nat.succ_ne_zero n
    | cons c text =>
      have htext : text <:+ c :: text := List.suffix_cons c text
      rw [readValueBy] at h
      split at h
      · rw [Option.map_eq_some_iff] at h
        obtain ⟨r, -, hr⟩ := h
        cases congrArg Prod.fst hr
      split at h
      · split at h
        · cases h
        · rw [Option.map_eq_some_iff] at h
          obtain ⟨r, -, hr⟩ := h
          cases congrArg Prod.fst hr
      split at h
      · next hc =>
        refine ⟨congrArg some hc, ?_⟩
        split at h
        · next hclose =>
          rw [Option.map_eq_some_iff] at h
          obtain ⟨v, -, hr⟩ := h
          cases hr
          rw [List.cons_head?_tail hclose]
          exact (skip_suffix text).trans htext
        · rw [Option.bind_eq_some_iff] at h
          obtain ⟨r, hread, hmap⟩ := h
          rw [Option.map_eq_some_iff] at hmap
          obtain ⟨v, -, hr⟩ := hmap
          cases hr
          exact ((readBy_suffix hook n).2.2 _ _ hread).trans ((skip_suffix text).trans htext)
      · exact absurd h readConstant_ne_obj

/-- A text without space around it that is read as an object stands between braces. -/
theorem braces_of_loadsBy {hook : Hook} {text : List Char} {fields : List (PyStr × PyJson)}
    (h : loadsBy hook text = some (.obj fields)) (hhead : ∀ c ∈ text.head?, jsonSpace c = false)
    (hlast : ∀ c ∈ text.getLast?, jsonSpace c = false) :
    text.head? = some '\x7b' ∧ text.getLast? = some '\x7d' := by
  have hskip : skip text = text := dropWhile_eq_self hhead
  unfold loadsBy at h
  rw [hskip] at h
  split at h
  swap
  · cases h
  next v rest hread =>
  split at h
  swap
  · cases h
  next hrest =>
  cases h
  obtain ⟨hopen, hclose⟩ := braces_of_readValueBy hread
  refine ⟨hopen, ?_⟩
  obtain ⟨before, hbefore⟩ := hclose
  have hwhite : ∀ c ∈ rest, jsonSpace c = true := List.dropWhile_eq_nil_iff.mp hrest
  rcases List.eq_nil_or_concat rest with hnil | ⟨front, last, hfront⟩
  · rw [← hbefore, hnil]
    exact List.getLast?_concat
  · have hend : text.getLast? = some last := by
      rw [← hbefore, hfront, List.concat_eq_append, ← List.cons_append, ← List.append_assoc]
      exact List.getLast?_concat
    have hmem : last ∈ rest := by rw [hfront, List.concat_eq_append]; exact List.mem_concat_self
    have hblank := hlast last hend
    rw [hwhite last hmem] at hblank
    cases hblank

end PyJson

end LilTweak.Lib
