import LilTweak.Lib.PyJsonText
import Mathlib

/-!
# Sorting the keys of a value

The value with sorted keys has the fields of the value itself, each sorted, and is readable when the
value is. Objects are taken to have distinct keys, as every Python `dict` has.
-/

namespace LilTweak.Lib

namespace Entries

variable {κ α : Type*} [DecidableEq κ] {l l' : List (κ × α)}

/-- Two orders of the same entries are searched alike. -/
theorem lookup_perm (hnodup : (l.map Prod.fst).Nodup) (h : l.Perm l') (k : κ) : lookup k l = lookup k l' := by
  have hnodup' : (l'.map Prod.fst).Nodup := (h.map Prod.fst).nodup_iff.mp hnodup
  have hiff : ∀ v, lookup k l = some v ↔ lookup k l' = some v := by
    intro v
    constructor
    · intro hv
      exact lookup_of_mem hnodup' (h.subset (mem_of_lookup hv))
    · intro hv
      exact lookup_of_mem hnodup (h.symm.subset (mem_of_lookup hv))
  exact Option.ext hiff

end Entries

namespace PyJson

mutual
/-- Every object in the value has distinct keys. -/
def Keyed : PyJson → Prop
  | .arr items => KeyedItems items
  | .obj fields => (fields.map Prod.fst).Nodup ∧ KeyedFields fields
  | _ => True
def KeyedItems : List PyJson → Prop
  | [] => True
  | v :: rest => Keyed v ∧ KeyedItems rest
def KeyedFields : List (PyStr × PyJson) → Prop
  | [] => True
  | (_, v) :: rest => Keyed v ∧ KeyedFields rest
end

theorem keyedItems_iff {items : List PyJson} : KeyedItems items ↔ ∀ v ∈ items, Keyed v := by
  induction items with
  | nil => simp [KeyedItems]
  | cons v rest ih => rw [KeyedItems, ih, List.forall_mem_cons]

theorem keyedFields_iff {fields : List (PyStr × PyJson)} : KeyedFields fields ↔ ∀ f ∈ fields, Keyed f.2 := by
  induction fields with
  | nil => simp [KeyedFields]
  | cons f rest ih =>
    obtain ⟨k, v⟩ := f
    rw [KeyedFields, ih, List.forall_mem_cons]

theorem readableItems_iff {items : List PyJson} : ReadableItems items ↔ ∀ v ∈ items, Readable v := by
  induction items with
  | nil => simp [ReadableItems]
  | cons v rest ih => rw [ReadableItems, ih, List.forall_mem_cons]

theorem readableFields_iff {fields : List (PyStr × PyJson)} :
    ReadableFields fields ↔ ∀ f ∈ fields, Unpaired f.1 ∧ Readable f.2 := by
  induction fields with
  | nil => simp [ReadableFields]
  | cons f rest ih =>
    obtain ⟨k, v⟩ := f
    rw [ReadableFields, ih, List.forall_mem_cons, and_assoc]

theorem sortItems_eq_map (items : List PyJson) : sortItems items = items.map sortKeys := by
  induction items with
  | nil => rfl
  | cons v rest ih => rw [sortItems, ih, List.map_cons]

theorem sortFields_eq_map (fields : List (PyStr × PyJson)) :
    sortFields fields = fields.map fun f => (f.1, sortKeys f.2) := by
  induction fields with
  | nil => rfl
  | cons f rest ih =>
    obtain ⟨k, v⟩ := f
    rw [sortFields, ih, List.map_cons]

/-- The fields of the object with sorted keys. -/
def ordered (fields : List (PyStr × PyJson)) : List (PyStr × PyJson) :=
  (sortFields fields).insertionSort fun a b => a.1 ≤ b.1

@[simp] theorem sortKeys_null : sortKeys .null = .null := rfl

@[simp] theorem sortKeys_bool (b : Bool) : sortKeys (.bool b) = .bool b := rfl

@[simp] theorem sortKeys_int (i : Int) : sortKeys (.int i) = .int i := rfl

@[simp] theorem sortKeys_float (literal : List Char) : sortKeys (.float literal) = .float literal := rfl

@[simp] theorem sortKeys_str (s : PyStr) : sortKeys (.str s) = .str s := rfl

theorem sortKeys_obj (fields : List (PyStr × PyJson)) : sortKeys (.obj fields) = .obj (ordered fields) :=
  rfl

theorem sortKeys_arr (items : List PyJson) : sortKeys (.arr items) = .arr (items.map sortKeys) :=
  congrArg PyJson.arr (sortItems_eq_map items)

theorem ordered_perm (fields : List (PyStr × PyJson)) :
    (ordered fields).Perm (fields.map fun f => (f.1, sortKeys f.2)) := by
  rw [← sortFields_eq_map]
  exact List.perm_insertionSort _ _

theorem ordered_keys (fields : List (PyStr × PyJson)) : ((ordered fields).map Prod.fst).Perm (fields.map Prod.fst) := by
  have h := (ordered_perm fields).map Prod.fst
  rw [List.map_map] at h
  exact h

/-- A field of the sorted object is the sorted field. -/
theorem lookup_ordered {fields : List (PyStr × PyJson)} (hnodup : (fields.map Prod.fst).Nodup) (k : PyStr) :
    Entries.lookup k (ordered fields) = (Entries.lookup k fields).map sortKeys := by
  rw [Entries.lookup_perm ((ordered_keys fields).nodup_iff.mpr hnodup) (ordered_perm fields)]
  clear hnodup
  induction fields with
  | nil => rfl
  | cons f rest ih =>
    obtain ⟨q, v⟩ := f
    rw [List.map_cons, Entries.lookup, Entries.lookup, ih]
    split
    · rfl
    · rfl

mutual
theorem Readable.sortKeys : ∀ {v : PyJson}, Readable v → Readable (sortKeys v)
  | .null, _ => by
    rw [sortKeys_null]
    trivial
  | .bool _, _ => by
    rw [sortKeys_bool]
    trivial
  | .int _, h => by
    rw [sortKeys_int]
    exact h
  | .float _, h => h.elim
  | .str _, h => by
    rw [sortKeys_str]
    exact h
  | .arr items, h => by
    rw [sortKeys_arr]
    refine readableItems_iff.mpr ?_
    intro w hw
    obtain ⟨v, hv, rfl⟩ := List.mem_map.mp hw
    exact ReadableItems.sortKeys h v hv
  | .obj fields, h => by
    rw [sortKeys_obj]
    refine ⟨(ordered_keys fields).nodup_iff.mpr h.1, readableFields_iff.mpr ?_⟩
    intro f hf
    obtain ⟨g, hg, rfl⟩ := List.mem_map.mp ((ordered_perm fields).subset hf)
    exact ⟨(readableFields_iff.mp h.2 g hg).1, ReadableFields.sortKeys h.2 g hg⟩
theorem ReadableItems.sortKeys : ∀ {items : List PyJson}, ReadableItems items → ∀ v ∈ items, Readable (sortKeys v)
  | [], _ => by simp
  | v :: rest, h => by
    have hv := Readable.sortKeys h.1
    have hrest := ReadableItems.sortKeys h.2
    intro w hw
    rcases List.mem_cons.mp hw with rfl | hmem
    · exact hv
    · exact hrest w hmem
theorem ReadableFields.sortKeys : ∀ {fields : List (PyStr × PyJson)}, ReadableFields fields →
    ∀ f ∈ fields, Readable (sortKeys f.2)
  | [], _ => by simp
  | (k, v) :: rest, h => by
    have hv := Readable.sortKeys h.2.1
    have hrest := ReadableFields.sortKeys h.2.2
    intro f hf
    rcases List.mem_cons.mp hf with rfl | hmem
    · exact hv
    · exact hrest f hmem
end

/-- A readable value is read back with its keys sorted from its sorted text. -/
theorem loads_sorted {v : PyJson} (h : Readable v) : loads (v.sortKeys.text ++ ['\n']) = some v.sortKeys :=
  (loads_text h.sortKeys).2

end PyJson

end LilTweak.Lib
