import LilTweak.Lib.PyJsonSort
import LilTweak.SkillForge.Compiler
import Mathlib

/-!
# Reading a value with sorted keys

Drafts and manifests are read by the names of their fields, so that a value with sorted keys is read
as the value itself; only the resources, which are read in the order of their keys, may come in
another one. What is read holds texts only and is read back from its canonical text.
-/

namespace LilTweak.SkillForge

open LilTweak.Lib

/-! ## Lists of readings -/

section
variable {α β : Type} {f : α → Except Fault β}

theorem of_mapM_cons {a : α} {l : List α} {r : List β} (h : (a :: l).mapM f = .ok r) :
    ∃ b rest, f a = .ok b ∧ l.mapM f = .ok rest ∧ r = b :: rest := by
  rw [List.mapM_cons] at h
  obtain ⟨b, hb, h⟩ := of_bind_ok h
  obtain ⟨rest, hrest, h⟩ := of_bind_ok h
  exact ⟨b, rest, hb, hrest, (Except.ok.inj h).symm⟩

theorem mapM_cons_ok {a : α} {l : List α} {b : β} {rest : List β} (hb : f a = .ok b) (hrest : l.mapM f = .ok rest) :
    (a :: l).mapM f = .ok (b :: rest) := by
  rw [List.mapM_cons, hb, ok_bind, hrest, ok_bind]
  rfl

/-- Every item of a list that was read was read. -/
theorem read_of_mapM {l : List α} {r : List β} (h : l.mapM f = .ok r) : ∀ a ∈ l, ∃ b ∈ r, f a = .ok b := by
  induction l generalizing r with
  | nil => simp
  | cons a l ih =>
    obtain ⟨b, rest, hb, hrest, rfl⟩ := of_mapM_cons h
    intro x hx
    rcases List.mem_cons.mp hx with rfl | hmem
    · exact ⟨b, List.mem_cons_self, hb⟩
    · obtain ⟨y, hy, hread⟩ := ih hrest x hmem
      exact ⟨y, List.mem_cons_of_mem _ hy, hread⟩

/-- Another order of the items gives another order of the results. -/
theorem mapM_perm {l l' : List α} {r : List β} (hperm : l.Perm l') (h : l.mapM f = .ok r) :
    ∃ r', l'.mapM f = .ok r' ∧ r'.Perm r := by
  induction hperm generalizing r with
  | nil => exact ⟨r, h, .refl _⟩
  | cons a _ ih =>
    obtain ⟨b, rest, hb, hrest, rfl⟩ := of_mapM_cons h
    obtain ⟨rest', hrest', hp⟩ := ih hrest
    exact ⟨b :: rest', mapM_cons_ok hb hrest', hp.cons b⟩
  | swap a a' l =>
    obtain ⟨b, rest, hb, hrest, rfl⟩ := of_mapM_cons h
    obtain ⟨b', rest', hb', hrest', rfl⟩ := of_mapM_cons hrest
    exact ⟨b' :: b :: rest', mapM_cons_ok hb' (mapM_cons_ok hb hrest'), .swap b b' rest'⟩
  | trans _ _ ih₁ ih₂ =>
    obtain ⟨r₁, h₁, hp₁⟩ := ih₁ h
    obtain ⟨r₂, h₂, hp₂⟩ := ih₂ h₁
    exact ⟨r₂, h₂, hp₂.trans hp₁⟩

theorem mapM_sorted {f : PyJson → Except Fault β} {items : List PyJson}
    (h : ∀ v ∈ items, f v.sortKeys = f v) : (items.map PyJson.sortKeys).mapM f = items.mapM f := by
  induction items with
  | nil => rfl
  | cons v rest ih =>
    rw [List.map_cons, List.mapM_cons, List.mapM_cons, h v List.mem_cons_self,
      ih fun w hw => h w (List.mem_cons_of_mem _ hw)]

end

/-! ## Texts -/

section
variable {limit : ℕ} {scan : Bool} {v : PyJson}

theorem text_sortKeys (v : PyJson) : text limit scan v.sortKeys = text limit scan v := by
  cases v with
  | arr items =>
    rw [PyJson.sortKeys_arr]
    rfl
  | obj fields =>
    rw [PyJson.sortKeys_obj]
    rfl
  | null | bool _ | int _ | float _ | str _ => simp

theorem digestValue_sortKeys (v : PyJson) : digestValue v.sortKeys = digestValue v := by
  cases v with
  | arr items =>
    rw [PyJson.sortKeys_arr]
    rfl
  | obj fields =>
    rw [PyJson.sortKeys_obj]
    rfl
  | null | bool _ | int _ | float _ | str _ => simp

theorem identifier_sortKeys (v : PyJson) : identifier v.sortKeys = identifier v := by
  unfold identifier
  rw [text_sortKeys]

theorem skillName_sortKeys (v : PyJson) : skillName v.sortKeys = skillName v := by
  unfold skillName
  rw [text_sortKeys]

theorem skillVersion_sortKeys (v : PyJson) : skillVersion v.sortKeys = skillVersion v := by
  unfold skillVersion
  rw [text_sortKeys]

theorem strings_sortKeys (maximum : ℕ) (v : PyJson) : strings maximum v.sortKeys = strings maximum v := by
  cases v with
  | arr items =>
    rw [PyJson.sortKeys_arr]
    unfold strings
    dsimp only
    rw [List.length_map, mapM_sorted fun w _ => text_sortKeys w]
    simp only [List.map_eq_nil_iff]
  | obj fields =>
    rw [PyJson.sortKeys_obj]
    rfl
  | null | bool _ | int _ | float _ | str _ => simp

theorem readRequirements_sortKeys (v : PyJson) : readRequirements v.sortKeys = readRequirements v := by
  unfold readRequirements
  rw [strings_sortKeys]

end

/-! ## Objects -/

section
variable {fields fields' : List (PyStr × PyJson)} {names : List String}

theorem keysAre_iff : keysAre names fields = true ↔
    (∀ k ∈ fields.map Prod.fst, k ∈ names.map PyStr.ofText) ∧ ∀ name ∈ names, PyStr.ofText name ∈ fields.map Prod.fst := by
  unfold keysAre
  simp only [Bool.and_eq_true, List.all_eq_true, List.contains_eq_mem, decide_eq_true_eq, List.forall_mem_map]

theorem keysAre_perm (h : (fields.map Prod.fst).Perm (fields'.map Prod.fst)) :
    keysAre names fields = keysAre names fields' := by
  rw [Bool.eq_iff_iff, keysAre_iff, keysAre_iff]
  simp only [h.mem_iff]

theorem draftShape_perm (h : (fields.map Prod.fst).Perm (fields'.map Prod.fst)) :
    draftShape fields = draftShape fields' := by
  have hiff : ∀ l : List (PyStr × PyJson), draftShape l = true ↔
      (∀ name ∈ draftFields, PyStr.ofText name ∈ l.map Prod.fst) ∧
        ∀ k ∈ l.map Prod.fst, k ∈ (draftFields ++ ["resources"]).map PyStr.ofText := by
    intro l
    unfold draftShape
    simp only [Bool.and_eq_true, List.all_eq_true, List.contains_eq_mem, decide_eq_true_eq, List.forall_mem_map]
  rw [Bool.eq_iff_iff, hiff, hiff]
  simp only [h.mem_iff]

theorem item_ordered (hnodup : (fields.map Prod.fst).Nodup) (name : String) :
    item name (PyJson.ordered fields) = (item name fields).map PyJson.sortKeys := by
  unfold item
  rw [PyJson.lookup_ordered hnodup]
  cases Entries.lookup (PyStr.ofText name) fields with
  | none => rfl
  | some value => rfl

theorem item_mem {name : String} {value : PyJson} (h : item name fields = .ok value) :
    (PyStr.ofText name, value) ∈ fields := by
  unfold item at h
  split at h
  · next found hlookup =>
    obtain rfl := Except.ok.inj h
    exact Entries.mem_of_lookup hlookup
  · cases h

/-- A field read with a reader that ignores the order of keys. -/
theorem item_bind_ordered {β : Type} {f : PyJson → Except Fault β} (hnodup : (fields.map Prod.fst).Nodup) {name : String}
    (hf : ∀ v, (PyStr.ofText name, v) ∈ fields → f v.sortKeys = f v) :
    (item name (PyJson.ordered fields) >>= f) = (item name fields >>= f) := by
  rw [item_ordered hnodup]
  cases hitem : item name fields with
  | error e => rfl
  | ok value => exact hf value (item_mem hitem)

end

theorem readOrigin_sortKeys {v : PyJson} (h : v.Keyed) : readOrigin v.sortKeys = readOrigin v := by
  cases v with
  | obj fields =>
    rw [PyJson.sortKeys_obj]
    unfold readOrigin
    dsimp only
    rw [keysAre_perm (PyJson.ordered_keys fields), item_bind_ordered h.1 fun v _ => identifier_sortKeys v,
      item_bind_ordered h.1 fun v _ => digestValue_sortKeys v, item_bind_ordered h.1 fun v _ => digestValue_sortKeys v]
  | arr items =>
    rw [PyJson.sortKeys_arr]
    rfl
  | null | bool _ | int _ | float _ | str _ => simp

theorem readExample_sortKeys {v : PyJson} (h : v.Keyed) : readExample v.sortKeys = readExample v := by
  cases v with
  | obj fields =>
    rw [PyJson.sortKeys_obj]
    unfold readExample
    dsimp only
    rw [keysAre_perm (PyJson.ordered_keys fields), item_bind_ordered h.1 fun v _ => text_sortKeys v,
      item_bind_ordered h.1 fun v _ => text_sortKeys v]
  | arr items =>
    rw [PyJson.sortKeys_arr]
    rfl
  | null | bool _ | int _ | float _ | str _ => simp

theorem readExamples_sortKeys {v : PyJson} (h : v.Keyed) : readExamples v.sortKeys = readExamples v := by
  cases v with
  | arr items =>
    rw [PyJson.sortKeys_arr]
    unfold readExamples
    dsimp only
    rw [List.length_map, mapM_sorted fun w hw => readExample_sortKeys (PyJson.keyedItems_iff.mp h w hw)]
  | obj fields =>
    rw [PyJson.sortKeys_obj]
    rfl
  | null | bool _ | int _ | float _ | str _ => simp

/-- The resources of a value with sorted keys are those of the value in another order. -/
theorem readResources_sortKeys {v : PyJson} {r : List (List Char × List Char)} (h : readResources v = .ok r) :
    ∃ r', readResources v.sortKeys = .ok r' ∧ r'.Perm r := by
  cases v with
  | obj fields =>
    unfold readResources at h
    obtain ⟨hfew, h⟩ := unless_ok h
    have hsame : (fields.map fun f => (f.1, f.2.sortKeys)).mapM readResource = fields.mapM readResource := by
      rw [List.mapM_map]
      congr 1
      funext f
      unfold readResource
      dsimp only [Function.comp_apply]
      rw [text_sortKeys]
    obtain ⟨r', hr', hperm⟩ := mapM_perm (PyJson.ordered_perm fields).symm (hsame.trans h)
    refine ⟨r', ?_, hperm⟩
    rw [PyJson.sortKeys_obj]
    unfold readResources
    dsimp only
    have hlength : (PyJson.ordered fields).length = fields.length := by
      rw [(PyJson.ordered_perm fields).length_eq, List.length_map]
    rw [hlength, if_neg hfew]
    exact hr'
  | null | bool _ | int _ | float _ | str _ | arr _ => cases h

/-! ## Whole drafts -/

/-- The fields a draft was read from. -/
structure DraftRead (fields : List (PyStr × PyJson)) (d : Draft) : Prop where
  name : item "name" fields >>= skillName = .ok d.name
  version : item "version" fields >>= skillVersion = .ok d.version
  description : item "description" fields >>= text 1024 true = .ok d.description
  whenToUse : item "when_to_use" fields >>= text 4096 true = .ok d.whenToUse
  inputs : item "inputs" fields >>= strings 24 = .ok d.inputs
  outputs : item "outputs" fields >>= strings 24 = .ok d.outputs
  steps : item "steps" fields >>= strings 24 = .ok d.steps
  stopConditions : item "stop_conditions" fields >>= strings 24 = .ok d.stopConditions
  requirements : item "requirements" fields >>= readRequirements = .ok d.requirements
  origin : item "origin" fields >>= readOrigin = .ok (d.agentId, d.sourceDigest, d.evidenceDigest)
  examples : item "examples" fields >>= readExamples = .ok d.examples
  resources : readResources ((Entries.lookup (PyStr.ofText "resources") fields).getD (.obj [])) = .ok d.resources

theorem readFields_ok_iff {fields : List (PyStr × PyJson)} {d : Draft} :
    readFields fields = .ok d ↔ DraftRead fields d := by
  constructor
  · intro h
    unfold readFields at h
    obtain ⟨name, hname, h⟩ := of_bind_ok h
    obtain ⟨version, hversion, h⟩ := of_bind_ok h
    obtain ⟨description, hdescription, h⟩ := of_bind_ok h
    obtain ⟨whenToUse, hwhen, h⟩ := of_bind_ok h
    obtain ⟨inputs, hinputs, h⟩ := of_bind_ok h
    obtain ⟨outputs, houtputs, h⟩ := of_bind_ok h
    obtain ⟨steps, hsteps, h⟩ := of_bind_ok h
    obtain ⟨stopConditions, hstop, h⟩ := of_bind_ok h
    obtain ⟨requirements, hrequirements, h⟩ := of_bind_ok h
    obtain ⟨origin, horigin, h⟩ := of_bind_ok h
    obtain ⟨examples, hexamples, h⟩ := of_bind_ok h
    obtain ⟨resources, hresources, h⟩ := of_bind_ok h
    obtain rfl := Except.ok.inj h
    exact ⟨hname, hversion, hdescription, hwhen, hinputs, houtputs, hsteps, hstop, hrequirements, horigin, hexamples,
      hresources⟩
  · intro h
    unfold readFields
    rw [h.name, ok_bind, h.version, ok_bind, h.description, ok_bind, h.whenToUse, ok_bind, h.inputs, ok_bind, h.outputs,
      ok_bind, h.steps, ok_bind, h.stopConditions, ok_bind, h.requirements, ok_bind, h.origin, ok_bind, h.examples,
      ok_bind, h.resources, ok_bind]

theorem readDraft_ok {data : PyJson} {d : Draft} (h : readDraft data = .ok d) :
    ∃ fields, data = .obj fields ∧ draftShape fields = true ∧ DraftRead fields d := by
  cases data with
  | obj fields =>
    unfold readDraft at h
    obtain ⟨hshape, h⟩ := unless_ok h
    exact ⟨fields, rfl, Bool.not_eq_false _ ▸ hshape, readFields_ok_iff.mp h⟩
  | null | bool _ | int _ | float _ | str _ | arr _ => cases h

/-- The draft with sorted keys reads as the draft, with its resources in another order. -/
theorem DraftRead.ordered {fields : List (PyStr × PyJson)} {d : Draft} (h : DraftRead fields d)
    (hkeyed : PyJson.Keyed (.obj fields)) :
    ∃ r', DraftRead (PyJson.ordered fields) { d with resources := r' } ∧ r'.Perm d.resources := by
  have hnodup := hkeyed.1
  have hvalues := PyJson.keyedFields_iff.mp hkeyed.2
  obtain ⟨r', hr', hperm⟩ := readResources_sortKeys h.resources
  refine ⟨r', ⟨?_, ?_, ?_, ?_, ?_, ?_, ?_, ?_, ?_, ?_, ?_, ?_⟩, hperm⟩
  · rw [item_bind_ordered hnodup fun v _ => skillName_sortKeys v, h.name]
  · rw [item_bind_ordered hnodup fun v _ => skillVersion_sortKeys v, h.version]
  · rw [item_bind_ordered hnodup fun v _ => text_sortKeys v, h.description]
  · rw [item_bind_ordered hnodup fun v _ => text_sortKeys v, h.whenToUse]
  · rw [item_bind_ordered hnodup fun v _ => strings_sortKeys 24 v, h.inputs]
  · rw [item_bind_ordered hnodup fun v _ => strings_sortKeys 24 v, h.outputs]
  · rw [item_bind_ordered hnodup fun v _ => strings_sortKeys 24 v, h.steps]
  · rw [item_bind_ordered hnodup fun v _ => strings_sortKeys 24 v, h.stopConditions]
  · rw [item_bind_ordered hnodup fun v _ => readRequirements_sortKeys v, h.requirements]
  · rw [item_bind_ordered hnodup fun v hv => readOrigin_sortKeys (hvalues _ hv), h.origin]
  · rw [item_bind_ordered hnodup fun v hv => readExamples_sortKeys (hvalues _ hv), h.examples]
  · rw [PyJson.lookup_ordered hnodup]
    cases hlookup : Entries.lookup (PyStr.ofText "resources") fields with
    | none =>
      rw [hlookup] at hr'
      exact hr'
    | some v =>
      rw [hlookup] at hr'
      exact hr'

/-! ## What was read is readable -/

theorem unpaired_ofChar (chars : List Char) : PyJson.Unpaired (chars.map CodePoint.ofChar) := by
  apply List.Pairwise.isChain
  apply List.pairwise_of_forall_mem_list
  intro a ha b _ hpair
  obtain ⟨c, _, rfl⟩ := List.mem_map.mp ha
  have hhigh := hpair.1
  unfold PyJson.highSurrogate at hhigh
  rw [Bool.and_eq_true, decide_eq_true_eq, decide_eq_true_eq] at hhigh
  have hvalid : c.toNat < 0xD800 ∨ 0xDFFF < c.toNat ∧ c.toNat < 0x110000 := c.valid
  have hcode : (CodePoint.ofChar c).val = c.toNat := rfl
  omega

theorem unpaired_ofText (s : String) : PyJson.Unpaired (PyStr.ofText s) := unpaired_ofChar s.toList

theorem readable_strOf (chars : List Char) : (strOf chars).Readable := unpaired_ofChar chars

theorem readable_of_text {limit : ℕ} {scan : Bool} {v : PyJson} {t : List Char} (h : text limit scan v = .ok t) :
    v.Readable := by
  obtain ⟨chars, rfl, _⟩ := text_ok_iff.mp h
  exact readable_strOf chars

theorem digestValue_ok {v : PyJson} {t : List Char} (h : digestValue v = .ok t) :
    v = strOf t ∧ digestShape t = true := by
  cases v with
  | str s =>
    unfold digestValue at h
    cases hs : s.mapM CodePoint.char? with
    | none =>
      simp only [hs] at h
      cases h
    | some chars =>
      simp only [hs] at h
      split at h
      · next hshape =>
        obtain rfl := Except.ok.inj h
        exact ⟨congrArg PyJson.str (PyStr.chars_iff.mp hs), hshape⟩
      · cases h
  | null | bool _ | int _ | float _ | arr _ | obj _ => cases h

theorem readable_of_digest {v : PyJson} {t : List Char} (h : digestValue v = .ok t) : v.Readable := by
  rw [(digestValue_ok h).1]
  exact readable_strOf t

theorem readable_of_identifier {v : PyJson} {t : List Char} (h : identifier v = .ok t) : v.Readable := by
  unfold identifier at h
  obtain ⟨_, htext, _⟩ := of_bind_ok h
  exact readable_of_text htext

theorem readable_of_name {v : PyJson} {t : List Char} (h : skillName v = .ok t) : v.Readable := by
  unfold skillName at h
  obtain ⟨_, htext, _⟩ := of_bind_ok h
  exact readable_of_text htext

theorem readable_of_version {v : PyJson} {t : List Char} (h : skillVersion v = .ok t) : v.Readable := by
  unfold skillVersion at h
  obtain ⟨_, htext, _⟩ := of_bind_ok h
  exact readable_of_text htext

theorem strings_ok {maximum : ℕ} {v : PyJson} {l : List (List Char)} (h : strings maximum v = .ok l) :
    ∃ items, v = .arr items ∧ items ≠ [] ∧ items.length ≤ maximum ∧ items.mapM (text 4096 true) = .ok l ∧ l.Nodup := by
  cases v with
  | arr items =>
    unfold strings at h
    obtain ⟨hcount, h⟩ := unless_ok h
    rw [not_or, Nat.not_lt] at hcount
    obtain ⟨result, hresult, h⟩ := of_bind_ok h
    split at h
    · next hnodup =>
      obtain rfl := Except.ok.inj h
      exact ⟨items, rfl, hcount.1, hcount.2, hresult, hnodup⟩
    · cases h
  | null | bool _ | int _ | float _ | str _ | obj _ => cases h

theorem readable_of_strings {maximum : ℕ} {v : PyJson} {l : List (List Char)} (h : strings maximum v = .ok l) :
    v.Readable := by
  obtain ⟨items, rfl, _, _, hitems, _⟩ := strings_ok h
  apply PyJson.readableItems_iff.mpr
  intro w hw
  obtain ⟨t, _, ht⟩ := read_of_mapM hitems w hw
  exact readable_of_text ht

theorem readable_of_requirements {v : PyJson} {l : List (List Char)} (h : readRequirements v = .ok l) : v.Readable := by
  unfold readRequirements at h
  obtain ⟨_, hstrings, _⟩ := of_bind_ok h
  exact readable_of_strings hstrings

/-- An object of named fields is readable when each of its fields is. -/
theorem readable_of_keys {names : List String} {fields : List (PyStr × PyJson)} (hkeys : keysAre names fields = true)
    (hnodup : (fields.map Prod.fst).Nodup)
    (h : ∀ name ∈ names, ∀ v, (PyStr.ofText name, v) ∈ fields → v.Readable) : PyJson.Readable (.obj fields) := by
  refine ⟨hnodup, PyJson.readableFields_iff.mpr ?_⟩
  intro f hf
  obtain ⟨name, hname, hkey⟩ := List.mem_map.mp ((keysAre_iff.mp hkeys).1 f.1 (List.mem_map_of_mem hf))
  constructor
  · rw [← hkey]
    exact unpaired_ofText name
  · refine h name hname f.2 ?_
    rw [hkey]
    exact hf

/-- The one value of a field. -/
theorem item_of_mem {fields : List (PyStr × PyJson)} (hnodup : (fields.map Prod.fst).Nodup) {name : String} {v : PyJson}
    (h : (PyStr.ofText name, v) ∈ fields) : item name fields = .ok v := by
  unfold item
  rw [Entries.lookup_of_mem hnodup h]

theorem read_of_item {β : Type} {f : PyJson → Except Fault β} {fields : List (PyStr × PyJson)}
    (hnodup : (fields.map Prod.fst).Nodup) {name : String} {b : β} (h : (item name fields >>= f) = .ok b) {v : PyJson}
    (hv : (PyStr.ofText name, v) ∈ fields) : f v = .ok b := by
  rw [item_of_mem hnodup hv] at h
  exact h

theorem readOrigin_ok {v : PyJson} {o : List Char × List Char × List Char} (h : readOrigin v = .ok o) :
    ∃ fields, v = .obj fields ∧ keysAre originFields fields = true ∧ (item "agent_id" fields >>= identifier) = .ok o.1 ∧
      (item "source_digest" fields >>= digestValue) = .ok o.2.1 ∧
      (item "evidence_digest" fields >>= digestValue) = .ok o.2.2 := by
  cases v with
  | obj fields =>
    unfold readOrigin at h
    obtain ⟨hkeys, h⟩ := unless_ok h
    obtain ⟨agentId, hagent, h⟩ := of_bind_ok h
    obtain ⟨source, hsource, h⟩ := of_bind_ok h
    obtain ⟨evidence, hevidence, h⟩ := of_bind_ok h
    obtain rfl := Except.ok.inj h
    exact ⟨fields, rfl, Bool.not_eq_false _ ▸ hkeys, hagent, hsource, hevidence⟩
  | null | bool _ | int _ | float _ | str _ | arr _ => cases h

theorem readable_of_origin {v : PyJson} {o : List Char × List Char × List Char} (hkeyed : v.Keyed)
    (h : readOrigin v = .ok o) : v.Readable := by
  obtain ⟨fields, rfl, hkeys, hagent, hsource, hevidence⟩ := readOrigin_ok h
  apply readable_of_keys hkeys hkeyed.1
  intro name hname w hw
  rcases List.mem_cons.mp hname with rfl | hname
  · exact readable_of_identifier (read_of_item hkeyed.1 hagent hw)
  · rcases List.mem_cons.mp hname with rfl | hname
    · exact readable_of_digest (read_of_item hkeyed.1 hsource hw)
    · obtain rfl := List.mem_singleton.mp hname
      exact readable_of_digest (read_of_item hkeyed.1 hevidence hw)

theorem readable_of_example {v : PyJson} {e : List Char × List Char} (hkeyed : v.Keyed) (h : readExample v = .ok e) :
    v.Readable := by
  cases v with
  | obj fields =>
    unfold readExample at h
    obtain ⟨hkeys, h⟩ := unless_ok h
    obtain ⟨input, hinput, h⟩ := of_bind_ok h
    obtain ⟨expected, hexpected, _⟩ := of_bind_ok h
    apply readable_of_keys (Bool.not_eq_false _ ▸ hkeys) hkeyed.1
    intro name hname w hw
    rcases List.mem_cons.mp hname with rfl | hname
    · exact readable_of_text (read_of_item hkeyed.1 hinput hw)
    · obtain rfl := List.mem_singleton.mp hname
      exact readable_of_text (read_of_item hkeyed.1 hexpected hw)
  | null | bool _ | int _ | float _ | str _ | arr _ => cases h

theorem readExamples_ok {v : PyJson} {l : List (List Char × List Char)} (h : readExamples v = .ok l) :
    ∃ items, v = .arr items ∧ items.mapM readExample = .ok l ∧ (l.map Prod.fst).Nodup := by
  cases v with
  | arr items =>
    unfold readExamples at h
    obtain ⟨_, h⟩ := unless_ok h
    obtain ⟨examples, hexamples, h⟩ := of_bind_ok h
    split at h
    · next hnodup =>
      obtain rfl := Except.ok.inj h
      exact ⟨items, rfl, hexamples, hnodup⟩
    · cases h
  | null | bool _ | int _ | float _ | str _ | obj _ => cases h

theorem readable_of_examples {v : PyJson} {l : List (List Char × List Char)} (hkeyed : v.Keyed)
    (h : readExamples v = .ok l) : v.Readable := by
  obtain ⟨items, rfl, hitems, _⟩ := readExamples_ok h
  apply PyJson.readableItems_iff.mpr
  intro w hw
  obtain ⟨e, _, he⟩ := read_of_mapM hitems w hw
  exact readable_of_example (PyJson.keyedItems_iff.mp hkeyed w hw) he

theorem readResource_ok {f : PyStr × PyJson} {r : List Char × List Char} (h : readResource f = .ok r) :
    checkedPath true (.str f.1) = .ok r.1 ∧ text maxFileBytes true f.2 = .ok r.2 := by
  unfold readResource at h
  obtain ⟨path, hpath, h⟩ := of_bind_ok h
  obtain ⟨content, hcontent, h⟩ := of_bind_ok h
  obtain rfl := Except.ok.inj h
  exact ⟨hpath, hcontent⟩

theorem readResources_ok {v : PyJson} {l : List (List Char × List Char)} (h : readResources v = .ok l) :
    ∃ fields, v = .obj fields ∧ fields.length ≤ maxResources ∧ fields.mapM readResource = .ok l := by
  cases v with
  | obj fields =>
    unfold readResources at h
    obtain ⟨hfew, h⟩ := unless_ok h
    exact ⟨fields, rfl, Nat.not_lt.mp hfew, h⟩
  | null | bool _ | int _ | float _ | str _ | arr _ => cases h

theorem readable_of_resources {v : PyJson} {l : List (List Char × List Char)} (hkeyed : v.Keyed)
    (h : readResources v = .ok l) : v.Readable := by
  obtain ⟨fields, rfl, _, hfields⟩ := readResources_ok h
  refine ⟨hkeyed.1, PyJson.readableFields_iff.mpr ?_⟩
  intro f hf
  obtain ⟨r, _, hr⟩ := read_of_mapM hfields f hf
  obtain ⟨hpath, hcontent⟩ := readResource_ok hr
  have hkey : f.1 = r.1.map CodePoint.ofChar := PyJson.str.inj (checkedPath_ok hpath).1
  refine ⟨?_, readable_of_text hcontent⟩
  rw [hkey]
  exact unpaired_ofChar r.1

/-- A draft that was read is read back from its canonical text. -/
theorem readable_of_draft {data : PyJson} {d : Draft} (hkeyed : data.Keyed) (h : readDraft data = .ok d) :
    data.Readable := by
  obtain ⟨fields, rfl, hshape, hread⟩ := readDraft_ok h
  have hnodup := hkeyed.1
  have hvalues := PyJson.keyedFields_iff.mp hkeyed.2
  unfold draftShape at hshape
  rw [Bool.and_eq_true, List.all_eq_true, List.all_eq_true] at hshape
  refine ⟨hnodup, PyJson.readableFields_iff.mpr ?_⟩
  intro f hf
  have hknown := hshape.2 f hf
  rw [List.contains_eq_mem, decide_eq_true_eq] at hknown
  obtain ⟨name, hname, hkey⟩ := List.mem_map.mp hknown
  have hkeyReadable : PyJson.Unpaired f.1 := hkey ▸ unpaired_ofText name
  refine ⟨hkeyReadable, ?_⟩
  have hmem : (PyStr.ofText name, f.2) ∈ fields := by
    rw [hkey]
    exact hf
  have hread_as : ∀ {β : Type} {g : PyJson → Except Fault β} {b : β}, (item name fields >>= g) = .ok b → g f.2 = .ok b :=
    fun hg => read_of_item hnodup hg hmem
  simp only [draftFields, List.cons_append, List.nil_append, List.mem_cons, List.not_mem_nil, or_false] at hname
  rcases hname with rfl | rfl | rfl | rfl | rfl | rfl | rfl | rfl | rfl | rfl | rfl | rfl
  · exact readable_of_name (hread_as hread.name)
  · exact readable_of_version (hread_as hread.version)
  · exact readable_of_text (hread_as hread.description)
  · exact readable_of_text (hread_as hread.whenToUse)
  · exact readable_of_strings (hread_as hread.inputs)
  · exact readable_of_strings (hread_as hread.outputs)
  · exact readable_of_strings (hread_as hread.steps)
  · exact readable_of_requirements (hread_as hread.requirements)
  · exact readable_of_strings (hread_as hread.stopConditions)
  · exact readable_of_examples (hvalues f hf) (hread_as hread.examples)
  · exact readable_of_origin (hvalues f hf) (hread_as hread.origin)
  · have hresources := hread.resources
    rw [Entries.lookup_of_mem hnodup hmem, Option.getD_some] at hresources
    exact readable_of_resources (hvalues f hf) hresources

/-- The canonical text of a draft that was read reads as the draft, with its resources in another order. -/
theorem readDraft_canonical {data : PyJson} {d : Draft} (hkeyed : data.Keyed) (h : readDraft data = .ok d) :
    parseJson (canonicalText data) = .ok data.sortKeys ∧
      ∃ r', readDraft data.sortKeys = .ok { d with resources := r' } ∧ r'.Perm d.resources := by
  constructor
  · unfold parseJson canonicalText
    rw [PyJson.loads_sorted (readable_of_draft hkeyed h)]
  · obtain ⟨fields, rfl, hshape, hread⟩ := readDraft_ok h
    obtain ⟨r', hread', hperm⟩ := hread.ordered hkeyed
    refine ⟨r', ?_, hperm⟩
    rw [PyJson.sortKeys_obj]
    unfold readDraft
    dsimp only
    rw [draftShape_perm (PyJson.ordered_keys fields), hshape, if_neg Bool.false_ne_true.symm]
    exact readFields_ok_iff.mpr hread'

end LilTweak.SkillForge
