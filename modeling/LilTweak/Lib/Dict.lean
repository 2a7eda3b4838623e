import Mathlib.Data.List.Nodup
import Mathlib.Data.List.Basic

/-!
# Insertion-ordered finite maps

A `Dict` is a list of key/value pairs whose keys are distinct, in the order in
which the keys were first written. Assigning to a present key keeps its place;
a new key goes to the end; `values` lists the values in that order. Nothing
here depends on what the keys and values are.
-/

namespace LilTweak.Lib

/-- Selecting and mapping in one pass. -/
theorem filterMap_ite {α β : Type*} (p : α → Bool) (f : α → β) (l : List α) :
    (l.filterMap fun a => if p a then some (f a) else none) = (l.filter p).map f := by
  induction l with
  | nil => rfl
  | cons a l ih =>
    cases hp : p a
    · rw [List.filterMap_cons, hp, List.filter_cons_of_neg (by simp [hp])]
      exact ih
    · rw [List.filterMap_cons, hp, List.filter_cons_of_pos hp, List.map_cons, ← ih]
      rfl

variable {κ α : Type*} [DecidableEq κ]

namespace Entries

/-- The value stored under a key in a list of pairs, first occurrence first. -/
def lookup (k : κ) : List (κ × α) → Option α
  | [] => none
  | (k', v) :: rest => if k' = k then some v else lookup k rest

/-- Overwrite the pair of a present key in place, or append a new pair. -/
def assign (k : κ) (v : α) : List (κ × α) → List (κ × α)
  | [] => [(k, v)]
  | (k', v') :: rest => if k' = k then (k', v) :: rest else (k', v') :: assign k v rest

/-- Drop every pair of a key. -/
def remove (k : κ) (l : List (κ × α)) : List (κ × α) := l.filter (fun p => p.1 ≠ k)

theorem lookup_nil (k : κ) : lookup k ([] : List (κ × α)) = none := rfl

theorem lookup_cons (k k' : κ) (v : α) (rest : List (κ × α)) :
    lookup k ((k', v) :: rest) = if k' = k then some v else lookup k rest := rfl

theorem assign_nil (k : κ) (v : α) : assign k v [] = [(k, v)] := rfl

theorem assign_cons (k k' : κ) (v v' : α) (rest : List (κ × α)) :
    assign k v ((k', v') :: rest) = if k' = k then (k', v) :: rest else (k', v') :: assign k v rest := rfl

theorem lookup_assign (k k' : κ) (v : α) (l : List (κ × α)) :
    lookup k' (assign k v l) = if k' = k then some v else lookup k' l := by
  induction l with
  | nil => simp [assign_nil, lookup_nil, lookup_cons, eq_comm]
  | cons p rest ih =>
    obtain ⟨q, w⟩ := p
    by_cases hq : q = k
    · by_cases h : k' = k
      · simp [assign_cons, lookup_cons, hq, h]
      · have hq' : q ≠ k' := fun e => h (e ▸ hq)
        simp [assign_cons, lookup_cons, hq, h, Ne.symm h]
    · by_cases hq' : q = k'
      · have h : k' ≠ k := fun e => hq (hq'.trans e)
        simp [assign_cons, lookup_cons, hq', h]
      · simp [assign_cons, lookup_cons, hq, hq', ih]

theorem keys_assign (k : κ) (v : α) (l : List (κ × α)) :
    (assign k v l).map Prod.fst =
      if k ∈ l.map Prod.fst then l.map Prod.fst else l.map Prod.fst ++ [k] := by
  induction l with
  | nil => simp [assign_nil]
  | cons p rest ih =>
    obtain ⟨q, w⟩ := p
    by_cases hq : q = k
    · simp [assign_cons, hq]
    · have hq' : k ≠ q := fun e => hq e.symm
      by_cases h : k ∈ rest.map Prod.fst
      · rw [if_pos h] at ih
        simp only [assign_cons, if_neg hq, List.map_cons, ih]
        rw [if_pos (List.mem_cons_of_mem _ h)]
      · rw [if_neg h] at ih
        have hn : k ∉ q :: rest.map Prod.fst := by
          simpa only [List.mem_cons, not_or] using ⟨hq', h⟩
        simp only [assign_cons, if_neg hq, List.map_cons, ih]
        rw [if_neg hn, List.cons_append]

theorem lookup_remove (k k' : κ) (l : List (κ × α)) :
    lookup k' (remove k l) = if k' = k then none else lookup k' l := by
  induction l with
  | nil => simp [remove, lookup_nil]
  | cons p rest ih =>
    obtain ⟨q, w⟩ := p
    simp only [remove] at ih ⊢
    by_cases hq : q = k
    · rw [List.filter_cons_of_neg (by simpa using hq), ih]
      by_cases h : k' = k
      · simp [h]
      · have hq' : q ≠ k' := fun e => h (e ▸ hq)
        simp [h, lookup_cons, hq']
    · rw [List.filter_cons_of_pos (by simpa using hq)]
      by_cases hq' : q = k'
      · have h : k' ≠ k := fun e => hq (hq'.trans e)
        simp [lookup_cons, hq', h]
      · simp only [lookup_cons, if_neg hq']
        exact ih

theorem mem_of_lookup {k : κ} {v : α} {l : List (κ × α)} (h : lookup k l = some v) :
    (k, v) ∈ l := by
  induction l with
  | nil => simp [lookup_nil] at h
  | cons p rest ih =>
    obtain ⟨q, w⟩ := p
    by_cases hq : q = k
    · simp only [lookup_cons, if_pos hq, Option.some.injEq] at h
      simp [hq, h]
    · simp only [lookup_cons, if_neg hq] at h
      exact List.mem_cons_of_mem _ (ih h)

theorem lookup_of_mem {k : κ} {v : α} {l : List (κ × α)} (hl : (l.map Prod.fst).Nodup)
    (h : (k, v) ∈ l) : lookup k l = some v := by
  induction l with
  | nil => simp at h
  | cons p rest ih =>
    obtain ⟨q, w⟩ := p
    simp only [List.map_cons, List.nodup_cons] at hl
    rcases List.mem_cons.mp h with he | hr
    · obtain ⟨rfl, rfl⟩ := Prod.mk.inj he
      simp [lookup_cons]
    · have hq : q ≠ k := fun e => hl.1 (e ▸ List.mem_map_of_mem (f := Prod.fst) hr)
      simp only [lookup_cons, if_neg hq]
      exact ih hl.2 hr

theorem assign_lookup {k : κ} {v : α} {l : List (κ × α)} (h : lookup k l = some v) :
    assign k v l = l := by
  induction l with
  | nil => cases h
  | cons p rest ih =>
    obtain ⟨q, w⟩ := p
    by_cases hq : q = k
    · simp only [lookup_cons, if_pos hq, Option.some.injEq] at h
      simp [assign_cons, hq, h]
    · simp only [lookup_cons, if_neg hq] at h
      simp [assign_cons, hq, ih h]

/-- Overwriting a present key leaves alone what does not tell the two values apart. -/
theorem filterMap_assign_present {β : Type*} {k : κ} {v old : α} {g : κ × α → Option β}
    {l : List (κ × α)} (h : lookup k l = some old) (hg : g (k, v) = g (k, old)) :
    (assign k v l).filterMap g = l.filterMap g := by
  induction l with
  | nil => cases h
  | cons p rest ih =>
    obtain ⟨q, w⟩ := p
    by_cases hq : q = k
    · subst hq
      simp only [lookup_cons, ↓reduceIte, Option.some.injEq] at h
      simp [assign_cons, List.filterMap_cons, hg, h]
    · simp only [lookup_cons, if_neg hq] at h
      simp [assign_cons, hq, List.filterMap_cons, ih h]

theorem assign_absent {k : κ} {v : α} {l : List (κ × α)} (h : lookup k l = none) :
    assign k v l = l ++ [(k, v)] := by
  induction l with
  | nil => rfl
  | cons p rest ih =>
    obtain ⟨q, w⟩ := p
    by_cases hq : q = k
    · simp [lookup_cons, hq] at h
    · simp only [lookup_cons, if_neg hq] at h
      simp [assign_cons, hq, ih h]

end Entries

/-- A finite map with distinct keys in insertion order. -/
structure Dict (κ α : Type*) where
  entries : List (κ × α)
  nodup : (entries.map Prod.fst).Nodup

namespace Dict

omit [DecidableEq κ] in
@[ext] theorem ext {d e : Dict κ α} (h : d.entries = e.entries) : d = e := by
  cases d; cases e; cases h; rfl

/-- The empty map. -/
def empty : Dict κ α := ⟨[], List.nodup_nil⟩

instance : EmptyCollection (Dict κ α) := ⟨empty⟩

instance : Inhabited (Dict κ α) := ⟨∅⟩

/-- `d.get(k)`. -/
def get? (d : Dict κ α) (k : κ) : Option α := Entries.lookup k d.entries

/-- `d[k] = v`. -/
def set (d : Dict κ α) (k : κ) (v : α) : Dict κ α where
  entries := Entries.assign k v d.entries
  nodup := by
    rw [Entries.keys_assign]
    split
    · exact d.nodup
    · next h => exact List.nodup_append.mpr ⟨d.nodup, List.nodup_singleton k, by
        intro a ha b hb; rw [List.mem_singleton] at hb; rintro rfl; exact h (hb ▸ ha)⟩

/-- `d.pop(k, None)`. -/
def erase (d : Dict κ α) (k : κ) : Dict κ α where
  entries := Entries.remove k d.entries
  nodup := d.nodup.sublist ((List.filter_sublist).map Prod.fst)

/-- Keep the pairs that satisfy a predicate. -/
def filter (d : Dict κ α) (p : κ → α → Bool) : Dict κ α where
  entries := d.entries.filter (fun e => p e.1 e.2)
  nodup := d.nodup.sublist ((List.filter_sublist).map Prod.fst)

/-- The dict with a function applied to every value. -/
def mapValues {β : Type*} (d : Dict κ α) (f : α → β) : Dict κ β where
  entries := d.entries.map fun e => (e.1, f e.2)
  nodup := by simpa only [List.map_map, Function.comp_def] using d.nodup

/-- The dict with a function of the key applied to every value. -/
def mapWithKey {β : Type*} (d : Dict κ α) (f : κ → α → β) : Dict κ β where
  entries := d.entries.map fun e => (e.1, f e.1 e.2)
  nodup := by simpa only [List.map_map, Function.comp_def] using d.nodup

/-- `d.keys()`. -/
def keys (d : Dict κ α) : List κ := d.entries.map Prod.fst

/-- `d.values()`. -/
def values (d : Dict κ α) : List α := d.entries.map Prod.snd

/-- `k in d`. -/
def contains (d : Dict κ α) (k : κ) : Bool := (d.get? k).isSome

@[simp] theorem get?_empty (k : κ) : (∅ : Dict κ α).get? k = none := rfl

theorem get?_set (d : Dict κ α) (k k' : κ) (v : α) :
    (d.set k v).get? k' = if k' = k then some v else d.get? k' :=
  Entries.lookup_assign k k' v d.entries

theorem entries_set_absent {d : Dict κ α} {k : κ} (h : d.get? k = none) (v : α) :
    (d.set k v).entries = d.entries ++ [(k, v)] := Entries.assign_absent h

/-- Writing the value that is there. -/
theorem set_get? (d : Dict κ α) {k : κ} {v : α} (h : d.get? k = some v) : d.set k v = d :=
  ext (Entries.assign_lookup h)

theorem filterMap_set_present {β : Type*} {d : Dict κ α} {k : κ} {v old : α} {g : κ × α → Option β}
    (h : d.get? k = some old) (hg : g (k, v) = g (k, old)) :
    (d.set k v).entries.filterMap g = d.entries.filterMap g :=
  Entries.filterMap_assign_present h hg

@[simp] theorem get?_set_self (d : Dict κ α) (k : κ) (v : α) : (d.set k v).get? k = some v := by
  simp [get?_set]

theorem get?_set_ne (d : Dict κ α) {k k' : κ} (v : α) (h : k' ≠ k) :
    (d.set k v).get? k' = d.get? k' := by
  simp [get?_set, h]

theorem get?_erase (d : Dict κ α) (k k' : κ) :
    (d.erase k).get? k' = if k' = k then none else d.get? k' :=
  Entries.lookup_remove k k' d.entries

@[simp] theorem get?_erase_self (d : Dict κ α) (k : κ) : (d.erase k).get? k = none := by
  simp [get?_erase]

theorem get?_erase_ne (d : Dict κ α) {k k' : κ} (h : k' ≠ k) :
    (d.erase k).get? k' = d.get? k' := by
  simp [get?_erase, h]

theorem mem_entries_iff (d : Dict κ α) (k : κ) (v : α) :
    (k, v) ∈ d.entries ↔ d.get? k = some v :=
  ⟨Entries.lookup_of_mem d.nodup, Entries.mem_of_lookup⟩

theorem mem_values_iff (d : Dict κ α) (v : α) : v ∈ d.values ↔ ∃ k, d.get? k = some v := by
  simp only [values, List.mem_map, ← mem_entries_iff]
  constructor
  · rintro ⟨⟨k, w⟩, h, rfl⟩
    exact ⟨k, h⟩
  · rintro ⟨k, h⟩
    exact ⟨(k, v), h, rfl⟩

theorem mem_keys_iff (d : Dict κ α) (k : κ) : k ∈ d.keys ↔ ∃ v, d.get? k = some v := by
  simp only [keys, List.mem_map, ← mem_entries_iff]
  constructor
  · rintro ⟨⟨k', w⟩, h, rfl⟩
    exact ⟨w, h⟩
  · rintro ⟨v, h⟩
    exact ⟨(k, v), h, rfl⟩

theorem get?_filter (d : Dict κ α) (p : κ → α → Bool) (k : κ) :
    (d.filter p).get? k = (d.get? k).filter (p k) := by
  ext v
  rw [← mem_entries_iff, Option.filter_eq_some_iff, ← mem_entries_iff]
  exact List.mem_filter

theorem get?_mapValues {β : Type*} (d : Dict κ α) (f : α → β) (k : κ) :
    (d.mapValues f).get? k = (d.get? k).map f := by
  ext w
  rw [← mem_entries_iff, Option.map_eq_some_iff]
  simp only [mapValues, List.mem_map, Prod.mk.injEq, Prod.exists, mem_entries_iff]
  constructor
  · rintro ⟨k', v, h, rfl, rfl⟩
    exact ⟨v, h, rfl⟩
  · rintro ⟨v, h, rfl⟩
    exact ⟨k, v, h, rfl, rfl⟩

theorem get?_mapWithKey {β : Type*} (d : Dict κ α) (f : κ → α → β) (k : κ) :
    (d.mapWithKey f).get? k = (d.get? k).map (f k) := by
  ext w
  rw [← mem_entries_iff, Option.map_eq_some_iff]
  simp only [mapWithKey, List.mem_map, Prod.mk.injEq, Prod.exists, mem_entries_iff]
  constructor
  · rintro ⟨k', v, h, rfl, rfl⟩
    exact ⟨v, h, rfl⟩
  · rintro ⟨v, h, rfl⟩
    exact ⟨k, v, h, rfl, rfl⟩

theorem set_mapWithKey {β : Type*} (d : Dict κ α) (f : κ → α → β) (k : κ) (v : α) :
    (d.mapWithKey f).set k (f k v) = (d.set k v).mapWithKey f := by
  ext1
  show Entries.assign k (f k v) (d.entries.map fun e => (e.1, f e.1 e.2)) =
    (Entries.assign k v d.entries).map fun e => (e.1, f e.1 e.2)
  induction d.entries with
  | nil => rfl
  | cons p rest ih =>
    obtain ⟨q, w⟩ := p
    by_cases hq : q = k
    · subst hq
      simp [Entries.assign]
    · simp only [List.map_cons, Entries.assign, if_neg hq, ih]

theorem contains_iff (d : Dict κ α) (k : κ) : d.contains k = true ↔ ∃ v, d.get? k = some v :=
  Option.isSome_iff_exists

instance [DecidableEq α] : DecidableEq (Dict κ α) := fun d e =>
  decidable_of_iff (d.entries = e.entries) ⟨ext, congrArg entries⟩

end Dict

end LilTweak.Lib
