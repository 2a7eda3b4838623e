import LilTweak.Sources.Archive
import Mathlib

/-!
# What an inspected archive holds

The loop of `inspect_zip` looks up the parents of a new path among the files it has seen, and a new file
among the parents of the paths it has seen, so that the order of the members does not matter. One parent
it never looks up: the root, which a file named by dots alone stands for.
-/

namespace LilTweak.Sources

open LilTweak.Lib

variable {F : CaseFolding} {divide : Int → Int → ℚ} {limits : ArchiveLimits}

/-- A path is above another one, ignoring case. -/
def ProperAncestor (F : CaseFolding) (e f : ArchiveEntry) : Prop := e.folded F <+: f.folded F ∧ e.folded F ≠ f.folded F

/-- The name of a member stands for the root. -/
def ZipInfo.rooted (info : ZipInfo) : Bool := (components info.filename).isEmpty

/-! ## One member -/

/-- An entry as the loop makes it of a member. -/
structure Inspected (F : CaseFolding) (divide : Int → Int → ℚ) (limits : ArchiveLimits) (info : ZipInfo)
    (e : ArchiveEntry) : Prop where
  path : e.path = asPosix (components info.filename)
  parts : pathParts e.path.toList = components info.filename
  inside : ".." ∉ components info.filename
  shallow : ((components info.filename).length : Int) ≤ limits.maxDepth
  directory : e.isDirectory = info.isDirectory
  size : e.size = info.fileSize
  nonneg : 0 ≤ e.size
  small : e.size ≤ limits.maxFileBytes
  ratio : info.fileSize ≠ 0 → info.compressSize ≠ 0 ∧
    divide info.fileSize info.compressSize ≤ limits.maxCompressionRatio

theorem safeName_ok {casefold : String → String} {raw path : String} {maxDepth : Nat} {dir : Bool}
    (h : safeName casefold raw maxDepth = .ok (path, dir)) :
    path = asPosix (components raw) ∧ ".." ∉ components raw ∧ (components raw).length ≤ maxDepth ∧
      dir = namedDirectory raw := by
  have hparts : pathParts ((slashed raw).rdropWhile (· = '/')) = components raw := pathParts_rdropWhile _
  unfold safeName at h
  simp only [show (raw.toList.map fun c => if c = '\\' then '/' else c) = slashed raw from rfl, hparts] at h
  split at h
  · cases h
  split at h
  · cases h
  split at h
  · cases h
  next hinside =>
  split at h
  · cases h
  split at h
  · cases h
  next hshallow =>
  obtain ⟨hpath, hdir⟩ := Prod.mk.inj (Except.ok.inj h)
  refine ⟨hpath.symm, (not_or.mp hinside).2, Nat.le_of_not_lt hshallow, ?_⟩
  rw [← hdir, namedDirectory]
  by_cases hlast : (slashed raw).getLast? = some '/'
  · rw [hlast]
    rfl
  · rw [decide_eq_false hlast]
    exact (beq_eq_false_iff_ne.mpr hlast).symm

theorem pathParts_asPosix {parts : List String} (hparts : ∀ part ∈ parts, Component part) :
    pathParts (asPosix parts).toList = parts := by
  unfold asPosix
  split
  · next hnil =>
    rw [hnil]
    decide
  · next hne => exact pathParts_join hparts hne

/-- A name that ends in a slash is a directory's in both readings. -/
theorem isDirectory_eq (info : ZipInfo) :
    (info.filename.toList.getLast? == some '/' || namedDirectory info.filename || info.kind == 0o040000) =
      info.isDirectory := by
  unfold ZipInfo.isDirectory
  cases hslash : (info.filename.toList.getLast? == some '/') with
  | false => rw [Bool.false_or]
  | true =>
    have hlast : info.filename.toList.getLast? = some '/' := beq_iff_eq.mp hslash
    have hnamed : namedDirectory info.filename = true := by
      rw [namedDirectory, slashed, List.getLast?_map, hlast]
      rfl
    rw [hnamed]
    rfl

theorem validateInfo_ok {info : ZipInfo} {e : ArchiveEntry} {folded : String} (hdepth : 0 ≤ limits.maxDepth)
    (h : validateInfo F divide limits info = .ok (e, folded)) :
    Inspected F divide limits info e ∧ folded = F.casefold e.path := by
  unfold validateInfo at h
  cases hname : safeName F.casefold info.filename limits.maxDepth.toNat with
  | error fault =>
    rw [hname] at h
    cases h
  | ok named =>
    obtain ⟨path, dir⟩ := named
    obtain ⟨hpath, hinside, hshallow, hdir⟩ := safeName_ok hname
    rw [hname] at h
    dsimp only at h
    rw [hdir, isDirectory_eq] at h
    split at h
    · cases h
    split at h
    · cases h
    split at h
    · cases h
    split at h
    · cases h
    next hsign =>
    split at h
    · cases h
    next hsmall =>
    split at h
    · cases h
    next hratio =>
    obtain ⟨rfl, hfolded⟩ := Prod.mk.inj (Except.ok.inj h)
    refine ⟨⟨hpath, ?_, hinside, by omega, rfl, rfl, ?_, ?_, ?_⟩, hfolded.symm⟩
    · show pathParts path.toList = _
      rw [hpath]
      exact pathParts_asPosix fun part hpart => (components_component hpart).1
    · show 0 ≤ info.fileSize
      omega
    · exact Int.le_of_not_gt hsmall
    · intro hne
      rw [not_and, not_or] at hratio
      exact ⟨(hratio hne).1, le_of_not_gt (hratio hne).2⟩

/-! ## The loop -/

/-- What holds of the state of the loop behind some members. -/
structure Sound (F : CaseFolding) (divide : Int → Int → ℚ) (limits : ArchiveLimits) (infos : List ZipInfo)
    (s : Inspection) : Prop where
  inspected : List.Forall₂ (Inspected F divide limits) infos s.entries
  seen : ∀ e ∈ s.entries, F.casefold e.path ∈ s.seen
  types : ∀ e ∈ s.entries, s.entryTypes.get? (F.casefold e.path) = some e.isDirectory
  distinct : (s.entries.map fun e => F.casefold e.path).Nodup
  clear : ∀ e ∈ s.entries, ∀ f ∈ s.entries, e.isDirectory = false → e.folded F ≠ [] → ¬ProperAncestor F e f
  total : s.total = (s.entries.map ArchiveEntry.size).sum
  within : s.total ≤ limits.maxTotalBytes

/-- Every entry is made of a member. -/
theorem Sound.source {infos : List ZipInfo} {s : Inspection} (h : Sound F divide limits infos s) {e : ArchiveEntry}
    (he : e ∈ s.entries) : ∃ info ∈ infos, Inspected F divide limits info e := by
  obtain ⟨i, hi, rfl⟩ := List.mem_iff_getElem.mp he
  have hlength := h.inspected.length_eq
  exact ⟨infos[i], List.getElem_mem _, h.inspected.get (by omega) hi⟩

/-- Away from the root a folded path is its folded components joined. -/
theorem Inspected.folded_join {info : ZipInfo} {e : ArchiveEntry} (h : Inspected F divide limits info e)
    (hne : e.folded F ≠ []) : F.casefold e.path = "/".intercalate (e.folded F) := by
  have hparts : components info.filename ≠ [] := by
    intro hnil
    apply hne
    rw [ArchiveEntry.folded, h.parts, hnil]
    rfl
  rw [h.path, asPosix, if_neg hparts, casefold_join, ArchiveEntry.folded, h.parts]

/-- The parent at which a shorter folded path stands is looked up. -/
theorem mem_properParents {parts : List String} {n : Nat} (hpos : 0 < n) (hlt : n < parts.length) :
    parts.take n ∈ properParents parts := by
  refine List.mem_map.mpr ⟨n, List.mem_reverse.mpr ?_, rfl⟩
  obtain ⟨m, rfl⟩ : ∃ m, n = m + 1 := ⟨n - 1, by omega⟩
  rw [List.mem_drop_iff_getElem]
  exact ⟨m, by rw [List.length_range]; omega, by rw [List.getElem_range]; omega⟩

/-- A file above the new path is found among its parents. -/
theorem above_found {info : ZipInfo} {e f : ArchiveEntry} (he : Inspected F divide limits info e) (hne : e.folded F ≠ []) (habove : ProperAncestor F e f) :
    ∃ parent ∈ properParents (pathParts f.path.toList), F.casefold (asPosix parent) = F.casefold e.path := by
  obtain ⟨hbegins, hproper⟩ := habove
  have htake : e.folded F = (f.folded F).take (e.folded F).length := List.prefix_iff_eq_take.mp hbegins
  have hpos : 0 < (e.folded F).length := List.length_pos_of_ne_nil hne
  have hlt : (e.folded F).length < (pathParts f.path.toList).length := by
    have hle := hbegins.length_le
    have hlength : (f.folded F).length = (pathParts f.path.toList).length := List.length_map _
    have hlen : (e.folded F).length ≠ (f.folded F).length := fun hlen => hproper (hbegins.eq_of_length hlen)
    omega
  refine ⟨_, mem_properParents hpos hlt, ?_⟩
  have hparent : (pathParts f.path.toList).take (e.folded F).length ≠ [] := by
    intro hnil
    have hlength := congrArg List.length hnil
    rw [List.length_take, List.length_nil] at hlength
    omega
  rw [asPosix, if_neg hparent, casefold_join, List.map_take, he.folded_join hne]
  exact congrArg _ htake.symm

/-- A path below the new file is found among the paths seen. -/
theorem below_found {info info' : ZipInfo} {e f : ArchiveEntry} (he : Inspected F divide limits info e)
    (hf : Inspected F divide limits info' f) (hne : e.folded F ≠ []) (habove : ProperAncestor F e f) :
    ((F.casefold e.path).toList ++ ['/']).isPrefixOf (F.casefold f.path).toList = true := by
  have hfne : f.folded F ≠ [] := by
    intro hnil
    apply hne
    rw [← List.prefix_nil, ← hnil]
    exact habove.1
  rw [List.isPrefixOf_iff_prefix, he.folded_join hne, hf.folded_join hfne]
  exact join_prefix hne habove.1 habove.2

theorem sound_start (hbytes : 0 ≤ limits.maxTotalBytes) : Sound F divide limits [] {} where
  inspected := .nil
  seen e he := by cases he
  types e he := by cases he
  distinct := List.nodup_nil
  clear e he := by cases he
  total := rfl
  within := hbytes

/-- One round keeps what holds. -/
theorem Sound.inspect {infos : List ZipInfo} {info : ZipInfo} {s s' : Inspection} (hdepth : 0 ≤ limits.maxDepth)
    (hs : Sound F divide limits infos s) (h : inspectInfo F divide limits s info = .ok s') :
    Sound F divide limits (infos ++ [info]) s' := by
  unfold inspectInfo at h
  cases hinfo : validateInfo F divide limits info with
  | error fault =>
    rw [hinfo] at h
    cases h
  | ok validated =>
  obtain ⟨e, folded⟩ := validated
  obtain ⟨hnew, rfl⟩ := validateInfo_ok hdepth hinfo
  rw [hinfo] at h
  dsimp only at h
  split at h
  · cases h
  next hunseen =>
  split at h
  · cases h
  next hparents =>
  split at h
  · cases h
  next hchildren =>
  split at h
  · cases h
  next htotal =>
  obtain rfl := Except.ok.inj h
  have hother : ∀ f ∈ s.entries, F.casefold f.path ≠ F.casefold e.path := fun f hf heq => hunseen (heq ▸ hs.seen f hf)
  constructor
  · exact List.rel_append hs.inspected (.cons hnew .nil)
  · intro f hf
    rcases List.mem_append.mp hf with hf | hf
    · exact List.mem_cons_of_mem _ (hs.seen f hf)
    · rw [List.mem_singleton.mp hf]
      exact List.mem_cons_self
  · intro f hf
    show (s.entryTypes.set _ _).get? _ = _
    rw [Dict.get?_set]
    rcases List.mem_append.mp hf with hf | hf
    · rw [if_neg (hother f hf)]
      exact hs.types f hf
    · rw [List.mem_singleton.mp hf, if_pos rfl]
  · show ((s.entries ++ [e]).map _).Nodup
    rw [List.map_append, List.map_singleton]
    refine List.nodup_append.mpr ⟨hs.distinct, List.nodup_singleton _, ?_⟩
    intro a ha b hb
    obtain ⟨f, hf, rfl⟩ := List.mem_map.mp ha
    rw [List.mem_singleton.mp hb]
    exact hother f hf
  · intro f hf g hg hfile hne habove
    rcases List.mem_append.mp hf with hold | hlast
    · rcases List.mem_append.mp hg with hold' | hlast'
      · exact hs.clear f hold g hold' hfile hne habove
      · -- an older file above the new path
        rw [List.mem_singleton.mp hlast'] at habove
        obtain ⟨info', -, hinspected⟩ := hs.source hold
        obtain ⟨parent, hparent, hsame⟩ := above_found hinspected hne habove
        apply hparents
        refine List.any_eq_true.mpr ⟨parent, hparent, ?_⟩
        rw [hsame, hs.types f hold, hfile]
        rfl
    · rw [List.mem_singleton.mp hlast] at hfile hne habove
      rcases List.mem_append.mp hg with hold' | hlast'
      · -- an older path below the new file
        obtain ⟨info', -, hinspected⟩ := hs.source hold'
        refine hchildren ⟨hfile, List.any_eq_true.mpr ⟨F.casefold g.path, ?_, below_found hnew hinspected hne habove⟩⟩
        exact (Dict.mem_keys_iff _ _).mpr ⟨_, hs.types g hold'⟩
      · rw [List.mem_singleton.mp hlast'] at habove
        exact habove.2 rfl
  · show s.total + e.size = ((s.entries ++ [e]).map _).sum
    rw [List.map_append, List.sum_append, ← hs.total]
    simp
  · exact Int.le_of_not_gt htotal

theorem Sound.run {infos more : List ZipInfo} {s s' : Inspection} (hdepth : 0 ≤ limits.maxDepth)
    (hs : Sound F divide limits infos s) (h : more.foldlM (inspectInfo F divide limits) s = .ok s') :
    Sound F divide limits (infos ++ more) s' := by
  induction more generalizing infos s with
  | nil =>
    obtain rfl := Except.ok.inj h
    rwa [List.append_nil]
  | cons info more ih =>
    rw [List.foldlM_cons] at h
    cases hround : inspectInfo F divide limits s info with
    | error fault =>
      rw [hround] at h
      cases h
    | ok next =>
      rw [hround] at h
      rw [List.append_cons]
      exact ih (hs.inspect hdepth hround) h

/-- What `inspect_zip` has made sure of when it accepts. -/
theorem inspectZip_ok {infos : List ZipInfo} {entries : List ArchiveEntry}
    (h : inspectZip F divide limits infos = .ok entries) :
    (infos.length : Int) ≤ limits.maxEntries ∧ ∃ s, s.entries = entries ∧ Sound F divide limits infos s := by
  unfold inspectZip at h
  split at h
  · cases h
  next hlimits =>
  split at h
  · cases h
  next hcount =>
  cases hrun : infos.foldlM (inspectInfo F divide limits) {} with
  | error fault =>
    rw [hrun] at h
    cases h
  | ok s =>
    rw [hrun] at h
    rw [not_or, not_or, not_or, not_or] at hlimits
    obtain ⟨-, hdepth, -, hbytes, -⟩ := hlimits
    have hstart : Sound F divide limits [] {} := sound_start (by omega)
    have hsound := hstart.run (by omega) hrun
    exact ⟨by omega, s, Except.ok.inj h, hsound⟩

end LilTweak.Sources
