import LilTweak.Install.Environment
import LilTweak.SkillForge.Text
import Mathlib

/-!
# What the installer's check promises the core

The shapes the installer checks leave no white space at either end of a value, so the core's lookup, which
strips, finds the value as it is written. Seven settings have no such shape: they may begin or end with
white space the installer does not look for, and the core starts with the written values exactly when none
of them does.
-/

namespace LilTweak.Install

open LilTweak.Lib LilTweak.Signing LilTweak.Github

/-! ## What a checked file holds -/

/-- A value as a line can give it. -/
structure Written (v : List Char) : Prop where
  nonempty : v ≠ []
  printed : ∀ c ∈ v, 32 ≤ c.toNat
  first : v.head? ≠ some ' '
  last : v.getLast? ≠ some ' '

/-- Values that every line gives so. -/
def AllWritten (values : Values) : Prop := ∀ v ∈ values, Written v.2

theorem mem_assignment {line name value : List Char} (h : assignment line = some (name, value)) :
    value ≠ [] ∧ ∀ c ∈ value, c ∈ line := by
  unfold assignment at h
  dsimp only at h
  split at h
  · next hshape =>
    cases h
    refine ⟨hshape.2, fun c hc => ?_⟩
    exact ((List.tail_sublist _).trans (List.drop_sublist _ _)).subset hc
  · cases h

/-- A line keeps the values well written. -/
theorem readLine_written {values values' : Values} {line : List Char} (h : readLine values line = some values')
    (hw : AllWritten values) : AllWritten values' := by
  unfold readLine at h
  split at h
  · cases h
  next hclean =>
  split at h
  · cases h
    exact hw
  split at h
  · cases h
  next name value hassign =>
  split at h
  · cases h
  next hvalue =>
  obtain ⟨hne, hmem⟩ := mem_assignment hassign
  cases h
  intro v hv
  rw [List.mem_append, List.mem_singleton] at hv
  rcases hv with hv | hv
  · exact hw v hv
  · rw [hv]
    refine ⟨hne, fun c hc => ?_, ?_, ?_⟩
    · by_contra hlow
      exact hclean (Or.inr (List.any_eq_true.mpr ⟨c, hmem c hc, by simp only [Bool.or_eq_true, decide_eq_true_eq]; omega⟩))
    · intro hhead
      exact hvalue (Or.inr (Or.inl (by rw [show (name, value).2.head? = _ from hhead]; decide)))
    · intro hlast
      exact hvalue (Or.inr (Or.inr (by rw [show (name, value).2.getLast? = _ from hlast]; decide)))

/-- Every line of a file keeps them so. -/
theorem assignments_written {text : List Char} {values : Values} (h : assignments text = some values) :
    AllWritten values := by
  unfold assignments at h
  have hall : ∀ (lines : List (List Char)) (start : Values), AllWritten start →
      lines.foldlM readLine start = some values → AllWritten values := by
    intro lines
    induction lines with
    | nil =>
      intro start hstart hfold
      cases hfold
      exact hstart
    | cons line lines ih =>
      intro start hstart hfold
      rw [List.foldlM_cons, Option.bind_eq_bind, Option.bind_eq_some_iff] at hfold
      obtain ⟨next, hline, hrest⟩ := hfold
      exact ih next (readLine_written hline hstart) hrest
  exact hall _ _ (fun v hv => absurd hv List.not_mem_nil) h

theorem Values.written {values : Values} (h : AllWritten values) {s : Setting} {v : List Char}
    (hget : values.get s = some v) : Written v := by
  obtain ⟨entry, hentry, rfl⟩ : ∃ entry ∈ values, entry.2 = v := by
    unfold Values.get at hget
    induction values with
    | nil => cases hget
    | cons entry rest ih =>
      obtain ⟨name, value⟩ := entry
      rw [List.lookup_cons] at hget
      split at hget
      · cases hget
        exact ⟨(name, v), List.mem_cons_self, rfl⟩
      · obtain ⟨entry, hmem, heq⟩ := ih (fun v hv => h v (List.mem_cons_of_mem _ hv)) hget
        exact ⟨entry, List.mem_cons_of_mem _ hmem, heq⟩
  exact h entry hentry

/-! ## Values without white space at their ends -/

theorem isSpace_visible {c : Char} (hlow : 32 < c.toNat) (hhigh : c.toNat < 127) : isSpace c = false := by
  unfold isSpace
  simp only [Bool.or_eq_false_iff, Bool.and_eq_false_iff, decide_eq_false_iff_not]
  omega

/-- A text whose ends are no white space is not stripped. -/
theorem trim_of_ends {α : Type*} {p : α → Bool} {l : List α} (hfirst : ∀ x ∈ l.head?, p x = false)
    (hlast : ∀ x ∈ l.getLast?, p x = false) : trim p l = l := by
  unfold trim
  rw [dropWhile_eq_self hfirst, List.rdropWhile_eq_self_iff]
  intro hne hp
  rw [hlast _ (List.getLast_mem_getLast? hne)] at hp
  cases hp

/-- A text that begins and ends with a visible character is not stripped. -/
theorem trim_visible {v : List Char} (hfirst : ∀ c ∈ v.head?, 32 < c.toNat ∧ c.toNat < 127)
    (hlast : ∀ c ∈ v.getLast?, 32 < c.toNat ∧ c.toNat < 127) : trim isSpace v = v :=
  trim_of_ends (fun c hc => isSpace_visible (hfirst c hc).1 (hfirst c hc).2)
    fun c hc => isSpace_visible (hlast c hc).1 (hlast c hc).2

theorem lowerAlnum_visible {c : Char} (h : lowerAlnum c = true) : 32 < c.toNat ∧ c.toNat < 127 := by
  unfold lowerAlnum Char.isDigit at h
  simp only [Bool.or_eq_true, Bool.and_eq_true, decide_eq_true_eq, Char.le_def, UInt32.le_iff_toNat_le, ge_iff_le] at h
  change (97 ≤ c.toNat ∧ c.toNat ≤ 122) ∨ (48 ≤ c.toNat ∧ c.toNat ≤ 57) at h
  omega

theorem hexDigit_visible {c : Char} (h : Github.hexDigit c = true) : 32 < c.toNat ∧ c.toNat < 127 := by
  unfold Github.hexDigit Char.isDigit at h
  simp only [Bool.or_eq_true, Bool.and_eq_true, decide_eq_true_eq, Char.le_def, UInt32.le_iff_toNat_le, ge_iff_le] at h
  change (48 ≤ c.toNat ∧ c.toNat ≤ 57) ∨ (97 ≤ c.toNat ∧ c.toNat ≤ 102) at h
  omega

theorem nameChar_visible {c : Char} (h : nameChar c = true) : 32 < c.toNat ∧ c.toNat < 127 := by
  unfold nameChar at h
  rw [Bool.or_eq_true] at h
  rcases h with h | h
  · unfold Char.isAlphanum Char.isAlpha Char.isUpper Char.isLower Char.isDigit at h
    simp only [Bool.or_eq_true, Bool.and_eq_true, decide_eq_true_eq, UInt32.le_iff_toNat_le, ge_iff_le] at h
    change (((65 ≤ c.toNat ∧ c.toNat ≤ 90) ∨ (97 ≤ c.toNat ∧ c.toNat ≤ 122)) ∨ (48 ≤ c.toNat ∧ c.toNat ≤ 57)) at h
    omega
  · rw [decide_eq_true_eq] at h
    fin_cases h <;> decide

/-- What every character of an end of a text satisfies is satisfied by the last one. -/
theorem of_getLast?_append {front back : List Char} {p : Char → Prop} (hne : back ≠ []) (hp : ∀ c ∈ back, p c) :
    ∀ c ∈ (front ++ back).getLast?, p c := by
  intro c hc
  rw [List.getLast?_append_of_ne_nil _ hne] at hc
  exact hp c (List.mem_of_getLast? hc)

/-- A pinned image ends with its digest. -/
theorem image_digest {v : List Char} (h : validImageReference v = true) : ∃ digest, digest <:+ v ∧
    "@sha256:".toList.isPrefixOf digest = true ∧ digest.length = 72 ∧ (digest.drop 8).all Github.hexDigit = true := by
  unfold validImageReference at h
  extract_lets registry rest port rest' repository digest at h
  simp only [Bool.and_eq_true, decide_eq_true_eq] at h
  obtain ⟨⟨⟨-, hbegins⟩, hsize⟩, hhex⟩ := h
  have hrest : rest <:+ v := List.dropWhile_suffix _
  have hrest' : rest' <:+ v := by
    show (if rest.head? = some ':' then rest.tail.dropWhile (· ≠ '/') else rest) <:+ v
    split
    · exact (List.dropWhile_suffix _).trans ((List.tail_suffix _).trans hrest)
    · exact hrest
  exact ⟨digest, (List.dropWhile_suffix _).trans ((List.tail_suffix _).trans hrest'), hbegins, hsize, hhex⟩

/-- It begins with a letter or a digit. -/
theorem image_head {v : List Char} (h : validImageReference v = true) : ∀ c ∈ v.head?, lowerAlnum c = true := by
  unfold validImageReference at h
  extract_lets registry rest port rest' repository digest at h
  simp only [Bool.and_eq_true, decide_eq_true_eq] at h
  obtain ⟨⟨⟨⟨⟨⟨⟨⟨⟨-, hfirst⟩, -⟩, -⟩, -⟩, -⟩, -⟩, -⟩, -⟩, -⟩ := h
  intro c hc
  have hsplit : registry ++ rest = v := List.takeWhile_append_dropWhile
  rw [← hsplit] at hc
  cases hregistry : registry with
  | nil =>
    rw [hregistry] at hfirst
    cases hfirst
  | cons first more =>
    rw [hregistry] at hc hfirst
    cases hc
    exact hfirst

theorem trim_image {v : List Char} (h : validImageReference v = true) : trim isSpace v = v := by
  refine trim_visible (fun c hc => lowerAlnum_visible (image_head h c hc)) ?_
  obtain ⟨digest, hdigest, -, hsize, hhex⟩ := image_digest h
  obtain ⟨before, hbefore⟩ := (List.drop_suffix 8 digest).trans hdigest
  rw [← hbefore]
  refine of_getLast?_append ?_ fun c hc => hexDigit_visible (List.all_eq_true.mp hhex c hc)
  intro hnil
  have hshort := congrArg List.length hnil
  rw [List.length_drop, hsize] at hshort
  cases hshort

theorem occursIn_image {v : List Char} (h : validImageReference v = true) : occursIn "@sha256:".toList v = true := by
  obtain ⟨digest, hdigest, hbegins, -⟩ := image_digest h
  exact List.any_eq_true.mpr ⟨digest, (List.mem_tails _ _).mpr hdigest, hbegins⟩

/-- The password is in the URL between its fixed parts. -/
theorem trim_database {v password : List Char} (h : databasePassword v = some password) : trim isSpace v = v := by
  unfold databasePassword at h
  dsimp only at h
  split at h
  swap
  · cases h
  next hshape =>
  obtain ⟨hfront, -, -, hback⟩ := hshape
  refine trim_visible ?_ ?_
  · intro c hc
    obtain ⟨rest, hrest⟩ := List.isPrefixOf_iff_prefix.mp hfront
    rw [← hrest] at hc
    cases hc
    decide
  · intro c hc
    rw [← List.take_append_drop _ v, hback] at hc
    rw [List.getLast?_append_of_ne_nil _ (by decide)] at hc
    cases hc
    decide

theorem trim_repository {v : List Char} (h : validGithubRepository (String.ofList v) = true) : trim isSpace v = v := by
  unfold validGithubRepository at h
  simp only [String.toList_ofList, Bool.and_eq_true, List.all_eq_true, decide_eq_true_eq] at h
  apply trim_eq_self
  intro c hc
  rcases (SkillForge.mem_parts hc : c = '/' ∨ _) with rfl | ⟨part, hpart, hcpart⟩
  · decide
  · obtain ⟨hlow, hhigh⟩ := nameChar_visible ((h.2 part hpart).2 c hcpart)
    exact isSpace_visible hlow hhigh

theorem Written.jsonSpace_free {v : List Char} (hw : Written v) :
    (∀ c ∈ v.head?, PyJson.jsonSpace c = false) ∧ ∀ c ∈ v.getLast?, PyJson.jsonSpace c = false := by
  have hfree : ∀ c : Char, 32 ≤ c.toNat → c ≠ ' ' → PyJson.jsonSpace c = false := by
    intro c hlow hspace
    unfold PyJson.jsonSpace
    simp only [Bool.or_eq_false_iff, decide_eq_false_iff_not]
    refine ⟨⟨⟨hspace, ?_⟩, ?_⟩, ?_⟩
    all_goals
      rintro rfl
      revert hlow
      decide
  constructor
  · intro c hc
    exact hfree c (hw.printed c (List.mem_of_mem_head? hc)) fun he => hw.first (by rw [← he]; exact hc)
  · intro c hc
    exact hfree c (hw.printed c (List.mem_of_getLast? hc)) fun he => hw.last (by rw [← he]; exact hc)

/-- The text of an object begins and ends with its braces. -/
theorem trim_object {v : List Char} {hook : PyJson.Hook} {fields : List (PyStr × PyJson)} (hw : Written v)
    (h : PyJson.loadsBy hook v = some (.obj fields)) : trim isSpace v = v := by
  obtain ⟨hopen, hclose⟩ := PyJson.braces_of_loadsBy h hw.jsonSpace_free.1 hw.jsonSpace_free.2
  refine trim_visible ?_ ?_
  · intro c hc
    rw [hopen] at hc
    cases hc
    decide
  · intro c hc
    rw [hclose] at hc
    cases hc
    decide

/-! ## What is checked of the values -/

section
variable {T : Tables} {values : Values} {password image : List Char}

/-- What the installer knows of the values it lets through. -/
structure Checked (T : Tables) (values : Values) (password : List Char) : Prop where
  present : ∀ s ∈ requiredCoreKeys, ∃ v, values.get s = some v
  galor : values.get .galorReadonlyUrl = none
  image : ∀ v ∈ values.get .runnerImage, validImageReference v = true
  workRoot : values.get .workRoot = some "/var/lib/lil-tweak/work".toList
  inodes : values.get .workRootInodes = some "204800".toList
  jobs : values.get .maxAdmittedJobs = some "1".toList
  seconds : values.get .jobTimeoutSeconds = some "1200".toList
  owner : values.get .canonicalOwnerId = some canonicalOwnerScope
  keys : ∀ v ∈ values.get .signingKeysJson, validSigningKeys v = true
  endpoint : ∀ v ∈ values.get .evidenceEndpoint, validHttpsEndpoint T v = some true
  hosts : ∀ v ∈ values.get .gitAllowedHosts, validGitHosts (gitHosts T v) = true
  github : values.get .executionBackend = some "github_actions".toList →
    (∃ r, values.get .githubRepository = some r ∧ validGithubRepository (String.ofList r) = true) ∧
      ∃ t, values.get .githubToken = some t ∧ 32 ≤ (encodeUtf8 t).length
  dormant : values.get .executionBackend ≠ some "github_actions".toList →
    values.get .executionBackend = some "local_podman".toList ∧ values.get .githubRepository = none ∧
      values.get .githubToken = none
  database : ∀ v ∈ values.get .databaseUrl, databasePassword v = some password

theorem any_get {s : Setting} {p : List Char → Bool} (h : ¬(values.get s).any p = false) :
    ∀ v ∈ values.get s, p v = true := by
  intro v hv
  rw [Option.mem_def] at hv
  rw [hv, Bool.not_eq_false] at h
  exact h

theorem checked_of_checkValues (h : checkValues T values password = some image) : Checked T values password := by
  simp only [checkValues, Option.ite_none_left_eq_some] at h
  obtain ⟨hpresent, hknown, hgalor, himage, hroot, hinodes, hjobs, hseconds, howner, hkeys, hendpoint, hhosts, hgithub,
    hdormant, hdatabase, -⟩ := h
  have hbound : ∀ s ∈ requiredCoreKeys, ∃ v, values.get s = some v := by
    intro s hs
    rw [Bool.not_eq_false, List.all_eq_true] at hpresent
    exact Option.isSome_iff_exists.mp (hpresent s hs)
  refine
    { present := hbound
      galor := Option.not_isSome_iff_eq_none.mp hgalor
      image := any_get himage
      workRoot := not_not.mp hroot
      inodes := not_not.mp hinodes
      jobs := not_not.mp hjobs
      seconds := not_not.mp hseconds
      owner := not_not.mp howner
      keys := any_get hkeys
      endpoint := ?_
      hosts := ?_
      github := ?_
      dormant := ?_
      database := ?_ }
  · intro v hv
    rw [Option.mem_def] at hv
    rw [hv] at hendpoint
    exact not_not.mp hendpoint
  · intro v hv
    rw [Option.mem_def] at hv
    rw [hv, Bool.not_eq_false] at hhosts
    exact hhosts
  · intro hbackend
    have hboth := not_not.mp fun hnot => hgithub ⟨hbackend, hnot⟩
    rw [Option.any_eq_true, Option.any_eq_true] at hboth
    obtain ⟨⟨r, hr, hvalid⟩, t, ht, hlong⟩ := hboth
    exact ⟨⟨r, hr, hvalid⟩, t, ht, of_decide_eq_true hlong⟩
  · intro hbackend
    have hall := not_and.mp hdormant hbackend
    simp only [not_or, not_not] at hall
    exact hall
  · intro v hv
    rw [Option.mem_def] at hv
    rw [hv] at hdatabase
    exact not_not.mp hdatabase

/-! ## What the core reads of them -/

theorem required_of_trim {s : Setting} {v : List Char} (hget : values.get s = some v) (hne : v ≠ [])
    (htrim : trim isSpace v = v) : required values s = .ok v := by
  unfold required
  dsimp only
  rw [hget, Option.getD_some, htrim, if_neg hne]

theorem optional_of_trim {s : Setting} {v : List Char} (hget : values.get s = some v) (hne : v ≠ [])
    (htrim : trim isSpace v = v) : optional values s = some v := by
  unfold optional
  dsimp only
  rw [hget, Option.getD_some, htrim, if_neg hne]

theorem optional_of_none {s : Setting} (hget : values.get s = none) : optional values s = none := by
  unfold optional
  rw [hget]
  rfl

/-- Keys without a repetition are read the same with and without the installer's hook. -/
theorem loadsBy_dict {text : List Char} {v : PyJson} (h : PyJson.loadsBy PyJson.objectOf text = some v) :
    PyJson.loadsBy PyJson.dictHook text = some v := by
  refine PyJson.loadsBy_mono (fun fields v hv => ?_) h
  unfold PyJson.objectOf at hv
  split at hv
  · next hnodup => exact hv ▸ PyJson.dictHook_of_nodup hnodup
  · cases hv

/-- The signing keys of a text the installer accepts. -/
theorem signingKeys_of_valid {text : List Char} (h : validSigningKeys text = true) :
    ∃ fields keys, PyJson.loadsBy PyJson.objectOf text = some (.obj fields) ∧ fields ≠ [] ∧
      fields.mapM signingKey = some keys := by
  unfold validSigningKeys at h
  split at h
  · next fields hload =>
    rw [Bool.and_eq_true, List.all_eq_true, decide_eq_true_eq] at h
    obtain ⟨hne, hall⟩ := h
    have hmap : ∃ keys, fields.mapM signingKey = some keys := by
      clear hload hne
      induction fields with
      | nil => exact ⟨[], rfl⟩
      | cons field rest ih =>
        obtain ⟨key, hkey⟩ := Option.isSome_iff_exists.mp (hall field List.mem_cons_self)
        obtain ⟨keys, hkeys⟩ := ih fun f hf => hall f (List.mem_cons_of_mem _ hf)
        exact ⟨key :: keys, by rw [List.mapM_cons, hkey, hkeys]; rfl⟩
    obtain ⟨keys, hkeys⟩ := hmap
    exact ⟨fields, keys, hload, hne, hkeys⟩
  · cases h

/-! ## Starting -/

/-- A configuration holds the values of a file as they are written there. -/
structure Config.AsWritten (T : Tables) (values : Values) (c : Config) : Prop where
  databaseUrl : values.get .databaseUrl = some c.databaseUrl
  signingKeys : ∃ text fields, values.get .signingKeysJson = some text ∧
    PyJson.loadsBy PyJson.objectOf text = some (.obj fields) ∧ fields.mapM signingKey = some c.signingKeys
  canonicalOwnerId : values.get .canonicalOwnerId = some c.canonicalOwnerId
  openaiApiKey : values.get .openaiApiKey = some c.openaiApiKey
  openaiModel : values.get .openaiModel = some c.openaiModel
  runnerImage : values.get .runnerImage = some c.runnerImage
  workRoot : values.get .workRoot = some c.workRoot
  workRootInodes : values.get .workRootInodes = some (PyJson.intText c.workRootInodes)
  evidenceBucket : values.get .evidenceBucket = some c.evidenceBucket
  evidenceEndpoint : values.get .evidenceEndpoint = some c.evidenceEndpoint
  awsAccessKeyId : values.get .r2AccessKeyId = some c.awsAccessKeyId
  awsSecretAccessKey : values.get .r2SecretAccessKey = some c.awsSecretAccessKey
  gitAllowedHosts : c.gitAllowedHosts = ((values.get .gitAllowedHosts).map (gitHosts T)).getD []
  galorReadonlyUrl : values.get .galorReadonlyUrl = c.galorReadonlyUrl
  maxAdmittedJobs : values.get .maxAdmittedJobs = some (PyJson.intText c.maxAdmittedJobs)
  jobTimeoutSeconds : values.get .jobTimeoutSeconds = some (PyJson.intText c.jobTimeoutSeconds)
  executionBackend : values.get .executionBackend = some c.executionBackend
  githubToken : values.get .githubToken = c.githubToken
  githubRepository : values.get .githubRepository = c.githubRepository

/-- The core starts with the values of a file: the configuration is read as it is written, and its runner is made. -/
def Starts (T : Tables) (values : Values) : Prop :=
  ∃ config, Config.fromEnv T values = .ok config ∧ config.AsWritten T values ∧
    ∃ runner, buildGithubRunner config = .ok runner

/-- The settings whose values have no shape at their ends. -/
def shapeless : List Setting :=
  [.openaiApiKey, .openaiModel, .evidenceBucket, .evidenceEndpoint, .r2AccessKeyId, .r2SecretAccessKey, .githubToken]

/-- None of their values is changed by stripping. -/
def Stripped (values : Values) : Prop := ∀ s ∈ shapeless, ∀ v, values.get s = some v → trim isSpace v = v

section
variable (hc : Checked T values password) (hw : AllWritten values)
include hc hw

/-- A required setting whose value keeps its ends is looked up as it is written. -/
theorem Checked.required_ok {s : Setting} (hs : s ∈ requiredCoreKeys)
    (htrim : ∀ v, values.get s = some v → trim isSpace v = v) :
    ∃ v, values.get s = some v ∧ required values s = .ok v := by
  obtain ⟨v, hget⟩ := hc.present s hs
  exact ⟨v, hget, required_of_trim hget (values.written hw hget).nonempty (htrim v hget)⟩

theorem Checked.readSigningKeys_ok : ∃ keys, readSigningKeys values = .ok keys ∧
    ∃ text fields, values.get .signingKeysJson = some text ∧
      PyJson.loadsBy PyJson.objectOf text = some (.obj fields) ∧ fields.mapM signingKey = some keys := by
  obtain ⟨text, hget⟩ := hc.present .signingKeysJson (by decide)
  obtain ⟨fields, keys, hload, hne, hkeys⟩ := signingKeys_of_valid (hc.keys text hget)
  have hwritten := values.written hw hget
  refine ⟨keys, ?_, text, fields, hget, hload, hkeys⟩
  unfold readSigningKeys
  rw [required_of_trim hget hwritten.nonempty (trim_object hwritten hload), ok_bind]
  simp only [loadsBy_dict hload, hkeys, if_neg hne]

theorem Checked.readRunnerImage_ok : ∃ image, readRunnerImage values = .ok image ∧
    values.get .runnerImage = some image := by
  obtain ⟨image, hget, hread⟩ := hc.required_ok hw (s := .runnerImage) (by decide) fun v hv => trim_image (hc.image v hv)
  refine ⟨image, ?_, hget⟩
  unfold readRunnerImage
  rw [hread, ok_bind, occursIn_image (hc.image image hget)]
  rfl

theorem Checked.readOwner_ok : readOwner values = .ok canonicalOwnerScope := by
  obtain ⟨owner, hget, hread⟩ := hc.required_ok hw (s := .canonicalOwnerId) (by decide) fun v hv => by
    rw [hc.owner] at hv
    cases hv
    decide +kernel
  rw [hc.owner] at hget
  cases hget
  unfold readOwner
  rw [hread, ok_bind, if_neg (not_not.mpr rfl)]

theorem Checked.readEndpoint_ok (hs : Stripped values) : ∃ endpoint, readEndpoint T values = .ok endpoint ∧
    values.get .evidenceEndpoint = some endpoint := by
  obtain ⟨endpoint, hget, hread⟩ := hc.required_ok hw (s := .evidenceEndpoint) (by decide) (hs _ (by decide))
  refine ⟨endpoint, ?_, hget⟩
  obtain ⟨parsed, hsplit, hvalid⟩ := Option.map_eq_some_iff.mp (hc.endpoint endpoint hget)
  have hscheme : parsed.scheme = "https".toList := by
    by_contra hne
    split at hvalid
    · cases hvalid
    · rw [if_pos (Or.inl hne)] at hvalid
      cases hvalid
  unfold readEndpoint
  rw [hread, ok_bind, hsplit]
  exact if_neg (not_not.mpr hscheme)

omit hw in
theorem Checked.readGalor_ok : readGalor T values = .ok none := by
  unfold readGalor
  rw [optional_of_none hc.galor]

omit hw in
theorem Checked.readHosts_ok : readHosts T values = .ok (((values.get .gitAllowedHosts).map (gitHosts T)).getD []) := by
  unfold readHosts
  dsimp only
  cases hget : values.get .gitAllowedHosts with
  | none => rfl
  | some hosts => exact if_neg (by rw [Option.getD_some, hc.hosts hosts hget]; exact Bool.noConfusion)

omit hw in
theorem Checked.readLimits_ok : readLimits T values = .ok (1, 1200) := by
  unfold readLimits
  rw [hc.jobs, hc.seconds]
  rfl

omit hw in
theorem Checked.readInodes_ok : readInodes T values = .ok 204800 := by
  unfold readInodes
  rw [hc.inodes]
  rfl

/-- The backend with its token and its repository, or neither. -/
theorem Checked.readExecution_ok (hs : Stripped values) : ∃ backend,
    readExecution values = .ok (backend, values.get .githubToken, values.get .githubRepository) ∧
      values.get .executionBackend = some backend := by
  obtain ⟨backend, hget⟩ := hc.present .executionBackend (by decide)
  refine ⟨backend, ?_, hget⟩
  unfold readExecution
  dsimp only
  by_cases hbackend : values.get .executionBackend = some "github_actions".toList
  · obtain ⟨⟨r, hr, hvalid⟩, t, ht, hlong⟩ := hc.github hbackend
    have htoken := optional_of_trim ht (values.written hw ht).nonempty (hs _ (by decide) t ht)
    have hrepository := optional_of_trim hr (values.written hw hr).nonempty (trim_repository hvalid)
    have htrim : trim isSpace "github_actions".toList = "github_actions".toList := by decide +kernel
    rw [hget] at hbackend
    cases hbackend
    rw [hget, Option.getD_some, htrim, htoken, hrepository, hr, ht]
    rw [if_neg (by decide), if_neg, if_neg]
    · exact fun hne => hne.1 rfl
    · rw [Option.any_some, Option.any_some, decide_eq_true hlong, hvalid]
      exact fun hnot => hnot.2 ⟨rfl, rfl⟩
  · obtain ⟨hlocal, hr, ht⟩ := hc.dormant hbackend
    have htrim : trim isSpace "local_podman".toList = "local_podman".toList := by decide +kernel
    rw [hget] at hlocal
    cases hlocal
    rw [hget, Option.getD_some, htrim, optional_of_none hr, optional_of_none ht, hr, ht]
    rw [if_neg (by decide), if_neg (by decide), if_neg (by decide)]

/-- The core starts with values none of which is changed by stripping. -/
theorem Checked.starts (hs : Stripped values) : Starts T values := by
  obtain ⟨keys, hkeys, hkeysWritten⟩ := hc.readSigningKeys_ok hw
  obtain ⟨image, himage, himageGet⟩ := hc.readRunnerImage_ok hw
  obtain ⟨endpoint, hendpoint, hendpointGet⟩ := hc.readEndpoint_ok hw hs
  obtain ⟨backend, hexecution, hbackend⟩ := hc.readExecution_ok hw hs
  obtain ⟨database, hdatabase, hdatabaseRead⟩ := hc.required_ok hw (s := .databaseUrl) (by decide)
    fun v hv => trim_database (hc.database v hv)
  obtain ⟨apiKey, hapiKey, hapiKeyRead⟩ := hc.required_ok hw (s := .openaiApiKey) (by decide) (hs _ (by decide))
  obtain ⟨model, hmodel, hmodelRead⟩ := hc.required_ok hw (s := .openaiModel) (by decide) (hs _ (by decide))
  obtain ⟨root, hroot, hrootRead⟩ := hc.required_ok hw (s := .workRoot) (by decide) fun v hv => by
    rw [hc.workRoot] at hv
    cases hv
    decide +kernel
  obtain ⟨bucket, hbucket, hbucketRead⟩ := hc.required_ok hw (s := .evidenceBucket) (by decide) (hs _ (by decide))
  obtain ⟨access, haccess, haccessRead⟩ := hc.required_ok hw (s := .r2AccessKeyId) (by decide) (hs _ (by decide))
  obtain ⟨secret, hsecret, hsecretRead⟩ := hc.required_ok hw (s := .r2SecretAccessKey) (by decide) (hs _ (by decide))
  refine ⟨⟨database, keys, canonicalOwnerScope, apiKey, model, image, root, 204800, bucket, endpoint, access, secret,
    ((values.get .gitAllowedHosts).map (gitHosts T)).getD [], none, 1, 1200, backend, values.get .githubToken,
    values.get .githubRepository⟩, ?_, ?_, ?_⟩
  · unfold Config.fromEnv
    rw [hkeys, ok_bind, himage, ok_bind, hendpoint, ok_bind, hc.readGalor_ok, ok_bind, hc.readHosts_ok, ok_bind,
      hc.readLimits_ok, ok_bind]
    dsimp only
    rw [hc.readInodes_ok, ok_bind, hc.readOwner_ok hw, ok_bind, hexecution, ok_bind]
    dsimp only
    rw [hdatabaseRead, ok_bind, hapiKeyRead, ok_bind, hmodelRead, ok_bind, hrootRead, ok_bind, hbucketRead, ok_bind,
      haccessRead, ok_bind, hsecretRead, ok_bind]
  · have hinodes : some "204800".toList = some (PyJson.intText 204800) := by decide +kernel
    have hjobs : some "1".toList = some (PyJson.intText 1) := by decide +kernel
    have hseconds : some "1200".toList = some (PyJson.intText 1200) := by decide +kernel
    exact ⟨hdatabase, hkeysWritten, hc.owner, hapiKey, hmodel, himageGet, hroot, hc.inodes.trans hinodes, hbucket,
      hendpointGet, haccess, hsecret, rfl, hc.galor, hc.jobs.trans hjobs, hc.seconds.trans hseconds, hbackend, rfl, rfl⟩
  · unfold buildGithubRunner
    dsimp only
    by_cases hgithub : backend = "github_actions".toList
    · rw [hgithub] at hbackend
      obtain ⟨⟨r, hr, hvalid⟩, t, ht, hlong⟩ := hc.github hbackend
      refine ⟨some ⟨t, r, defaultWorkflow⟩, ?_⟩
      rw [if_neg (not_not.mpr hgithub), hr, ht]
      have hworkflow : workflowName defaultWorkflow = true := by decide +kernel
      have hinit : GithubActionsRunner.init t r defaultWorkflow = .ok ⟨t, r, defaultWorkflow⟩ := by
        unfold GithubActionsRunner.init
        rw [if_neg]
        rw [hvalid, hworkflow, not_or, not_or]
        exact ⟨Nat.not_lt.mpr hlong, Bool.noConfusion, Bool.noConfusion⟩
      exact congrArg (Except.map some) hinit
    · exact ⟨none, if_pos hgithub⟩

end

/-! ## What stripping takes away -/

theorem trim_of_required {s : Setting} {v : List Char} (hget : values.get s = some v) (h : required values s = .ok v) :
    trim isSpace v = v := by
  unfold required at h
  obtain ⟨-, h⟩ := unless_ok h
  rw [hget] at h
  exact Except.ok.inj h

theorem trim_of_optional {s : Setting} {v : List Char} (hget : values.get s = some v) (h : optional values s = some v) :
    trim isSpace v = v := by
  unfold optional at h
  dsimp only at h
  split at h
  · cases h
  · rw [hget] at h
    exact Option.some.inj h

/-- What the configuration holds of the settings without a shape. -/
theorem fromEnv_lookups {c : Config} (h : Config.fromEnv T values = .ok c) :
    required values .openaiApiKey = .ok c.openaiApiKey ∧ required values .openaiModel = .ok c.openaiModel ∧
      required values .evidenceBucket = .ok c.evidenceBucket ∧
      required values .evidenceEndpoint = .ok c.evidenceEndpoint ∧
      required values .r2AccessKeyId = .ok c.awsAccessKeyId ∧
      required values .r2SecretAccessKey = .ok c.awsSecretAccessKey ∧ optional values .githubToken = c.githubToken := by
  unfold Config.fromEnv at h
  obtain ⟨keys, -, h⟩ := of_bind_ok h
  obtain ⟨image, -, h⟩ := of_bind_ok h
  obtain ⟨endpoint, hendpoint, h⟩ := of_bind_ok h
  obtain ⟨galor, -, h⟩ := of_bind_ok h
  obtain ⟨hosts, -, h⟩ := of_bind_ok h
  obtain ⟨limits, -, h⟩ := of_bind_ok h
  obtain ⟨inodes, -, h⟩ := of_bind_ok h
  obtain ⟨owner, -, h⟩ := of_bind_ok h
  obtain ⟨execution, hexecution, h⟩ := of_bind_ok h
  obtain ⟨database, -, h⟩ := of_bind_ok h
  obtain ⟨apiKey, hapiKey, h⟩ := of_bind_ok h
  obtain ⟨model, hmodel, h⟩ := of_bind_ok h
  obtain ⟨root, -, h⟩ := of_bind_ok h
  obtain ⟨bucket, hbucket, h⟩ := of_bind_ok h
  obtain ⟨access, haccess, h⟩ := of_bind_ok h
  obtain ⟨secret, hsecret, h⟩ := of_bind_ok h
  cases h
  refine ⟨hapiKey, hmodel, hbucket, ?_, haccess, hsecret, ?_⟩
  · unfold readEndpoint at hendpoint
    obtain ⟨endpoint', hread, hendpoint⟩ := of_bind_ok hendpoint
    split at hendpoint
    · cases hendpoint
    · obtain ⟨-, hendpoint⟩ := unless_ok hendpoint
      rw [hread, Except.ok.inj hendpoint]
  · unfold readExecution at hexecution
    obtain ⟨-, hexecution⟩ := unless_ok hexecution
    obtain ⟨-, hexecution⟩ := unless_ok hexecution
    obtain ⟨-, hexecution⟩ := unless_ok hexecution
    cases hexecution
    rfl

/-- A core that starts with the values as they are written finds none that stripping changes. -/
theorem stripped_of_starts (h : Starts T values) : Stripped values := by
  obtain ⟨c, hread, hwritten, -⟩ := h
  obtain ⟨hapiKey, hmodel, hbucket, hendpoint, haccess, hsecret, htoken⟩ := fromEnv_lookups hread
  have hpinned {s : Setting} {w : List Char} (hget : values.get s = some w) (hrequired : required values s = .ok w) :
      ∀ v, values.get s = some v → trim isSpace v = v := by
    intro v hv
    rw [hget] at hv
    cases hv
    exact trim_of_required hget hrequired
  intro s hs
  simp only [shapeless, List.mem_cons, List.not_mem_nil, or_false] at hs
  rcases hs with rfl | rfl | rfl | rfl | rfl | rfl | rfl
  · exact hpinned hwritten.openaiApiKey hapiKey
  · exact hpinned hwritten.openaiModel hmodel
  · exact hpinned hwritten.evidenceBucket hbucket
  · exact hpinned hwritten.evidenceEndpoint hendpoint
  · exact hpinned hwritten.awsAccessKeyId haccess
  · exact hpinned hwritten.awsSecretAccessKey hsecret
  · intro v hv
    exact trim_of_optional hv (by rw [htoken, ← hwritten.githubToken, hv])

/-- **The core starts with the values of a checked file exactly when stripping changes none of the shapeless ones.** -/
theorem checked_starts_iff {data : List UInt8} (h : parseCoreEnvironment T data password = some image) :
    ∃ values, coreEnvironment data = some values ∧ (Starts T values ↔ Stripped values) := by
  obtain ⟨values, henvironment, hcheck⟩ := Option.bind_eq_some_iff.mp h
  refine ⟨values, henvironment, ⟨stripped_of_starts, fun hs => ?_⟩⟩
  obtain ⟨text, -, hassign⟩ := Option.bind_eq_some_iff.mp henvironment
  exact (checked_of_checkValues hcheck).starts (assignments_written hassign) hs

end

/-! ### A file -/

/-- The tables of ASCII texts. -/
def asciiTables : Tables where
  lower := List.map Char.toLower
  nfkc := id
  digit := fun _ => none
  ipv6 := fun _ => false

def samplePassword : List Char := List.replicate 32 'p'

def sampleImage : List Char := "registry.example:5000/tweak/runner@sha256:".toList ++ List.replicate 64 'a'

/-- The settings of a local backend with this key. -/
def sampleValues (apiKey : List Char) : Values :=
  [(Setting.databaseUrl, "postgresql://lil_tweak_app:".toList ++ samplePassword ++
      "@lil-tweak-postgres:5432/lil_tweak".toList),
    (.signingKeysJson, "\x7b\"primary\":\"".toList ++ List.replicate 32 's' ++ "\"\x7d".toList),
    (.canonicalOwnerId, canonicalOwnerScope),
    (.openaiApiKey, apiKey),
    (.openaiModel, "gpt-5.6-terra".toList),
    (.runnerImage, sampleImage),
    (.executionBackend, "local_podman".toList),
    (.workRoot, "/var/lib/lil-tweak/work".toList),
    (.workRootInodes, "204800".toList),
    (.maxAdmittedJobs, "1".toList),
    (.jobTimeoutSeconds, "1200".toList),
    (.evidenceBucket, "evidence".toList),
    (.evidenceEndpoint, "https://account.example".toList),
    (.r2AccessKeyId, "access".toList),
    (.r2SecretAccessKey, "secret".toList)].map fun entry => (entry.1.name.toList, entry.2)

/-- The file with these settings. -/
def sampleFile (apiKey : List Char) : List Char :=
  (sampleValues apiKey).flatMap fun entry => entry.1 ++ '=' :: entry.2 ++ ['\n']

/-- What the installer looks for in the file, and what it finds in the settings. -/
@[mk_iff]
structure SampleChecked (apiKey : List Char) : Prop where
  ends : (encodeUtf8 (sampleFile apiKey)).reverse.head? = some 10 ∧ (encodeUtf8 (sampleFile apiKey)).reverse.take 2 ≠ [10, 10]
  clean : '\ufeff' ∉ sampleFile apiKey ∧ containsNoncharacter (sampleFile apiKey) = false ∧
    occursIn "CHANGE_ME".toList (sampleFile apiKey) = false
  assigned : assignments (sampleFile apiKey) = some (sampleValues apiKey)
  checked : checkValues asciiTables (sampleValues apiKey) samplePassword = some sampleImage

theorem coreEnvironment_sample {apiKey : List Char} (h : SampleChecked apiKey) :
    coreEnvironment (encodeUtf8 (sampleFile apiKey)) = some (sampleValues apiKey) := by
  unfold coreEnvironment readText
  rw [if_neg (not_or.mpr ⟨not_not.mpr h.ends.1, h.ends.2⟩), decodeUtf8_encodeUtf8, Option.bind_some, if_neg, Option.bind_some,
    h.assigned]
  rw [h.clean.2.1, h.clean.2.2]
  simp only [h.clean.1, Bool.false_eq_true, or_self, not_false_iff]

theorem parse_sample {apiKey : List Char} (h : SampleChecked apiKey) :
    parseCoreEnvironment asciiTables (encodeUtf8 (sampleFile apiKey)) samplePassword = some sampleImage := by
  unfold parseCoreEnvironment
  rw [coreEnvironment_sample h, Option.bind_some, h.checked]

-- The characters of the settings are read off their literals; the kernel would decode the bytes of each.
theorem sampleChecked_key : SampleChecked "test-only".toList := by
  rw [sampleChecked_iff]
  unfold sampleFile sampleValues samplePassword sampleImage
  simp only [List.map_cons, List.map_nil, Setting.name, -String.reduceToList]
  repeat rw [String.toList_ofList]
  decide +kernel

theorem sampleChecked_blank : SampleChecked ['\u00a0'] := by
  rw [sampleChecked_iff]
  unfold sampleFile sampleValues samplePassword sampleImage
  simp only [List.map_cons, List.map_nil, Setting.name, -String.reduceToList]
  repeat rw [String.toList_ofList]
  decide +kernel

theorem checked_starts_iff_sample : ∃ values,
    coreEnvironment (encodeUtf8 (sampleFile "test-only".toList)) = some values ∧
      (Starts asciiTables values ↔ Stripped values) :=
  checked_starts_iff (T := asciiTables) (parse_sample sampleChecked_key)

/-- The error of a computation that raises. -/
def errorOf {ε α : Type} : Except ε α → Option ε
  | .error e => some e
  | .ok _ => none

theorem eq_error_of_errorOf {ε α : Type} {x : Except ε α} {e : ε} (h : errorOf x = some e) : x = .error e := by
  cases x with
  | error e' => exact congrArg Except.error (Option.some.inj h)
  | ok a => cases h

/-- A key that is one no-break space passes the installer's check, and the core finds none. -/
theorem blank_key_stops : ∃ values,
    parseCoreEnvironment asciiTables (encodeUtf8 (sampleFile ['\u00a0'])) samplePassword = some sampleImage ∧
      coreEnvironment (encodeUtf8 (sampleFile ['\u00a0'])) = some values ∧
      Config.fromEnv asciiTables values = .error (.missing .openaiApiKey) ∧ ¬Starts asciiTables values := by
  have henvironment := coreEnvironment_sample sampleChecked_blank
  have hfails : Config.fromEnv asciiTables (sampleValues ['\u00a0']) = .error (.missing .openaiApiKey) :=
    eq_error_of_errorOf (by
      unfold sampleValues samplePassword sampleImage
      simp only [List.map_cons, List.map_nil, Setting.name, -String.reduceToList]
      repeat rw [String.toList_ofList]
      decide +kernel)
  refine ⟨_, parse_sample sampleChecked_blank, henvironment, hfails, fun hstarts => ?_⟩
  obtain ⟨config, hread, -⟩ := hstarts
  rw [hfails] at hread
  cases hread

end LilTweak.Install
