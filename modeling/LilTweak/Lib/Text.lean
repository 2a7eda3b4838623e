import Mathlib.Data.List.Basic
import Mathlib.Tactic.ByContra

/-!
# Lines and UTF-8

Cutting a sequence into lines that keep their ends, for any predicate that may
look ahead, and the UTF-8 encoding of a text as a homomorphism that respects
line feeds. Nothing here depends on what the lines are used for.
-/

namespace LilTweak.Lib

variable {α β : Type*}

/-! ## Lines that keep their ends -/

/-- Put an element in front of the first line. -/
def consHead (c : α) : List (List α) → List (List α)
  | [] => [[c]]
  | l :: ls => (c :: l) :: ls

/-- Cut after every element that satisfies `p`, which also sees what follows. -/
def splitAfter (p : α → List α → Bool) : List α → List (List α)
  | [] => []
  | c :: rest => if p c rest then [c] :: splitAfter p rest else consHead c (splitAfter p rest)

@[simp] theorem consHead_flatten (c : α) (ls : List (List α)) :
    (consHead c ls).flatten = c :: ls.flatten := by
  cases ls <;> simp [consHead]

theorem consHead_ne_nil (c : α) (ls : List (List α)) : consHead c ls ≠ [] := by
  cases ls <;> simp [consHead]

@[simp] theorem splitAfter_flatten (p : α → List α → Bool) (t : List α) :
    (splitAfter p t).flatten = t := by
  induction t with
  | nil => rfl
  | cons c rest ih =>
    rw [splitAfter]
    split
    · simp [ih]
    · rw [consHead_flatten, ih]

theorem splitAfter_eq_nil {p : α → List α → Bool} {t : List α} : splitAfter p t = [] ↔ t = [] := by
  cases t with
  | nil => simp [splitAfter]
  | cons c rest =>
    rw [splitAfter]
    split
    · simp
    · simp [consHead_ne_nil]

theorem ne_nil_of_mem_splitAfter {p : α → List α → Bool} {t l : List α} (h : l ∈ splitAfter p t) :
    l ≠ [] := by
  induction t generalizing l with
  | nil => simp [splitAfter] at h
  | cons c rest ih =>
    rw [splitAfter] at h
    split at h
    · rcases List.mem_cons.mp h with rfl | h
      · simp
      · exact ih h
    · cases hs : splitAfter p rest with
      | nil => rw [hs] at h; simp only [consHead, List.mem_singleton] at h; simp [h]
      | cons l' ls =>
        rw [hs] at h
        rcases List.mem_cons.mp h with rfl | h
        · simp
        · exact ih (hs ▸ List.mem_cons_of_mem _ h)

/-- Elements in front of which no cut falls go to the head of the first line. -/
theorem splitAfter_append {q : α → Bool} {xs : List α} (hxs : xs ≠ []) (hq : ∀ x ∈ xs, q x = false)
    (ys : List α) :
    splitAfter (fun c _ => q c) (xs ++ ys) =
      match splitAfter (fun c _ => q c) ys with
      | [] => [xs]
      | l :: ls => (xs ++ l) :: ls := by
  induction xs with
  | nil => exact absurd rfl hxs
  | cons x xs ih =>
    have hx := hq x List.mem_cons_self
    rw [List.cons_append, splitAfter, hx, if_neg Bool.false_ne_true]
    by_cases hnil : xs = []
    · subst hnil
      rw [List.nil_append]
      cases splitAfter (fun c _ => q c) ys <;> simp [consHead]
    · rw [ih hnil fun y hy => hq y (List.mem_cons_of_mem _ hy)]
      cases splitAfter (fun c _ => q c) ys <;> simp [consHead]

/-- Where a finer cut makes a line that ends at a coarse cut, the two agree on it
and go on alike. -/
theorem splitAfter_coarse {q : α → Bool} {p : α → List α → Bool}
    (hqp : ∀ c rest, q c = true → p c rest = true) {t l : List α} {ls : List (List α)}
    (h : splitAfter p t = l :: ls) (hend : ∃ c ∈ l.getLast?, q c = true) :
    splitAfter (fun c _ => q c) t = l :: splitAfter (fun c _ => q c) ls.flatten ∧
      splitAfter p ls.flatten = ls := by
  induction t generalizing l ls with
  | nil => simp [splitAfter] at h
  | cons c rest ih =>
    rw [splitAfter] at h
    split at h
    · obtain ⟨rfl, rfl⟩ := List.cons.inj h
      obtain ⟨c', hc', hq⟩ := hend
      obtain rfl : c = c' := by simpa using hc'
      rw [splitAfter_flatten]
      exact ⟨by rw [splitAfter, if_pos hq], rfl⟩
    · next hp =>
      have hq : q c = false := by
        by_contra hn
        exact hp (hqp c rest (by simpa using hn))
      cases hs : splitAfter p rest with
      | nil =>
        rw [hs] at h
        obtain ⟨rfl, rfl⟩ := List.cons.inj h
        obtain ⟨c', hc', hq'⟩ := hend
        obtain rfl : c = c' := by simpa using hc'
        rw [hq] at hq'
        cases hq'
      | cons l' ls' =>
        rw [hs] at h
        obtain ⟨rfl, rfl⟩ := List.cons.inj h
        have hne : l' ≠ [] := ne_nil_of_mem_splitAfter (p := p) (t := rest) (by simp [hs])
        obtain ⟨c', hc', hq'⟩ := hend
        have hlast : l'.getLast? = some c' := by
          rw [List.getLast?_cons] at hc'
          cases hl : l'.getLast? with
          | none => exact absurd (List.getLast?_eq_none_iff.mp hl) hne
          | some d => rw [hl] at hc'; simpa using hc'
        obtain ⟨h1, h2⟩ := ih hs ⟨c', hlast, hq'⟩
        exact ⟨by rw [splitAfter, hq, if_neg Bool.false_ne_true, h1, consHead], h2⟩

/-- While the lines of a finer cut end at coarse cuts, the two cuts agree. -/
theorem splitAfter_coarse_take {q : α → Bool} {p : α → List α → Bool}
    (hqp : ∀ c rest, q c = true → p c rest = true) (k : Nat) {t : List α}
    (hend : ∀ l ∈ (splitAfter p t).take k, ∃ c ∈ l.getLast?, q c = true) :
    splitAfter (fun c _ => q c) t =
      (splitAfter p t).take k ++ splitAfter (fun c _ => q c) ((splitAfter p t).drop k).flatten := by
  induction k generalizing t with
  | zero => simp
  | succ k ih =>
    cases hs : splitAfter p t with
    | nil =>
      obtain rfl := splitAfter_eq_nil.mp hs
      simp [splitAfter]
    | cons l ls =>
      rw [hs] at hend
      obtain ⟨h1, h2⟩ := splitAfter_coarse hqp hs (hend l (by simp))
      have hrest := ih (t := ls.flatten) (by
        rw [h2]
        exact fun l' hl' => hend l' (by simp [hl']))
      rw [h2] at hrest
      rw [h1, List.take_succ_cons, List.drop_succ_cons, List.cons_append, ← hrest]

/-! ## UTF-8 -/

/-- The UTF-8 encoding of a text. -/
def encodeUtf8 (t : List Char) : List UInt8 := t.flatMap String.utf8EncodeChar

/-- The text a sequence of bytes encodes, when it is valid UTF-8. -/
def decodeUtf8 (b : List UInt8) : Option (List Char) :=
  b.toByteArray.utf8Decode?.map Array.toList

@[simp] theorem encodeUtf8_nil : encodeUtf8 [] = [] := rfl

theorem encodeUtf8_cons (c : Char) (t : List Char) :
    encodeUtf8 (c :: t) = String.utf8EncodeChar c ++ encodeUtf8 t := rfl

@[simp] theorem encodeUtf8_append (s t : List Char) :
    encodeUtf8 (s ++ t) = encodeUtf8 s ++ encodeUtf8 t := List.flatMap_append

theorem encodeUtf8_flatten (ls : List (List Char)) :
    encodeUtf8 ls.flatten = (ls.map encodeUtf8).flatten := by
  induction ls with
  | nil => rfl
  | cons l ls ih => simp [ih]

@[simp] theorem decodeUtf8_encodeUtf8 (t : List Char) : decodeUtf8 (encodeUtf8 t) = some t := by
  have h : (encodeUtf8 t).toByteArray = t.utf8Encode := rfl
  simp [decodeUtf8, h]

theorem encodeUtf8_of_decodeUtf8 {b : List UInt8} {t : List Char} (h : decodeUtf8 b = some t) :
    encodeUtf8 t = b := by
  simp only [decodeUtf8, Option.map_eq_some_iff] at h
  obtain ⟨a, ha, rfl⟩ := h
  have hs : b.toByteArray.utf8Decode?.isSome = true := by simp [ha]
  have hget := ByteArray.utf8Encode_get_utf8Decode? (b := b.toByteArray) (h := hs)
  simp only [ha, Option.get_some] at hget
  exact List.toByteArray_inj.mp hget

theorem encodeUtf8_injective {s t : List Char} (h : encodeUtf8 s = encodeUtf8 t) : s = t := by
  have hd := decodeUtf8_encodeUtf8 s
  rw [h, decodeUtf8_encodeUtf8] at hd
  exact (Option.some.inj hd).symm

/-- A byte below 128 in the encoding of a character is that character. -/
theorem mem_utf8EncodeChar_ascii {c : Char} {b : UInt8} (hb : b.toNat < 128)
    (h : b ∈ String.utf8EncodeChar c) : c.toNat = b.toNat ∧ String.utf8EncodeChar c = [b] := by
  have hbound : c.val.toNat < 0x110000 := c.valid.elim (fun h => by omega) fun h => by omega
  have hlow : ∀ n, 128 ≤ n → n < 256 → b ≠ UInt8.ofNat n := by
    rintro n h1 h2 rfl
    simp only [UInt8.toNat_ofNat'] at hb
    omega
  unfold String.utf8EncodeChar at h ⊢
  simp only at h ⊢
  split at h
  · next hv =>
    obtain rfl := List.mem_singleton.mp h
    rw [if_pos hv]
    refine ⟨?_, rfl⟩
    simp only [UInt8.toNat_ofNat', Char.toNat]
    omega
  split at h
  · simp only [List.mem_cons, List.not_mem_nil, or_false] at h
    rcases h with h | h <;> exact absurd h (hlow _ (by omega) (by omega))
  split at h
  · simp only [List.mem_cons, List.not_mem_nil, or_false] at h
    rcases h with h | h | h <;> exact absurd h (hlow _ (by omega) (by omega))
  · simp only [List.mem_cons, List.not_mem_nil, or_false] at h
    rcases h with h | h | h | h <;> exact absurd h (hlow _ (by omega) (by omega))

theorem encodeUtf8_ascii {c : Char} (hc : c.toNat < 128) (t : List Char) :
    encodeUtf8 (c :: t) = UInt8.ofNat c.toNat :: encodeUtf8 t := by
  rw [encodeUtf8_cons, String.utf8EncodeChar]
  rw [if_pos (by simp only [Char.toNat] at hc; omega)]
  rfl

/-- The lines of an encoded text are the encoded lines, for any ASCII terminator. -/
theorem splitAfter_encodeUtf8 {n : Char} (hn : n.toNat < 128) (t : List Char) :
    splitAfter (fun b _ => b == UInt8.ofNat n.toNat) (encodeUtf8 t) =
      (splitAfter (fun c _ => c == n) t).map encodeUtf8 := by
  induction t with
  | nil => rfl
  | cons c rest ih =>
    by_cases hc : c = n
    · subst hc
      rw [encodeUtf8_ascii hn, splitAfter, splitAfter, if_pos (by simp), if_pos (by simp), ih,
        List.map_cons, encodeUtf8_ascii hn, encodeUtf8_nil]
    · have hnone : ∀ b ∈ String.utf8EncodeChar c, (b == UInt8.ofNat n.toNat) = false := by
        intro b hb
        rw [beq_eq_false_iff_ne]
        rintro rfl
        have hlt : (UInt8.ofNat n.toNat).toNat < 128 := by
          simp only [UInt8.toNat_ofNat']
          omega
        have hval := (mem_utf8EncodeChar_ascii hlt hb).1
        simp only [UInt8.toNat_ofNat'] at hval
        exact hc (Char.toNat_inj.mp (hval.trans (Nat.mod_eq_of_lt (by omega))))
      have hfalse : (c == n) = false := by simpa using hc
      rw [encodeUtf8_cons, splitAfter_append (q := fun b => b == UInt8.ofNat n.toNat)
        String.utf8EncodeChar_ne_nil hnone, ih, splitAfter, if_neg (by simp [hfalse])]
      cases splitAfter (fun c _ => c == n) rest with
      | nil => simp [consHead, encodeUtf8]
      | cons l ls => simp [consHead, encodeUtf8_cons]

theorem mem_encodeUtf8_ascii {n : Char} (hn : n.toNat < 128) (t : List Char) :
    UInt8.ofNat n.toNat ∈ encodeUtf8 t ↔ n ∈ t := by
  have hlt : (UInt8.ofNat n.toNat).toNat = n.toNat := by
    simp only [UInt8.toNat_ofNat']
    omega
  simp only [encodeUtf8, List.mem_flatMap]
  constructor
  · rintro ⟨c, hc, hb⟩
    have hval := (mem_utf8EncodeChar_ascii (by omega) hb).1
    rw [hlt] at hval
    exact Char.toNat_inj.mp hval ▸ hc
  · intro h
    refine ⟨n, h, ?_⟩
    have := encodeUtf8_ascii hn []
    rw [encodeUtf8_cons, encodeUtf8_nil, List.append_nil] at this
    rw [this]
    exact List.mem_singleton.mpr rfl

end LilTweak.Lib
