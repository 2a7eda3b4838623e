import LilTweak.Lib.PyJson
import Mathlib

/-!
# The arguments of the tools

The arguments of a tool are described three times: by the schema the model is given, by
`_validate_tool_arguments`, and by what `WorkspaceTools.execute` reads of them.
-/

namespace LilTweak.Agent

open LilTweak.Lib

/-- The arguments of a call. -/
abbrev ToolArguments := List (PyStr × PyJson)

/-- `arguments.get(name)`. -/
def argument (arguments : ToolArguments) (name : String) : Option PyJson := arguments.lookup (PyStr.ofText name)

/-- What Python makes of numbers with a fraction or an exponent, and of values of another type than asked for. -/
structure Builtins where
  /-- The integer a literal stands for, if it has no fraction. -/
  whole : List Char → Option Int
  /-- `int` of a float. -/
  intOfFloat : List Char → Option Int
  /-- `int` of a text. -/
  intOfText : PyStr → Option Int
  /-- `str` of what is no text. -/
  repr : PyJson → PyStr

/-! ## The schemas -/

/-- The schema of an argument. -/
inductive Schema
  | string (nullable : Bool)
  | integer (nullable : Bool) (minimum maximum : Int)
  | strings (minItems maxItems : Nat)

/-- An entry of `TOOL_SCHEMAS`. Every property is required, and no other is allowed. -/
structure ToolSchema where
  name : String
  properties : List (String × Schema)

/-- `TOOL_SCHEMAS`. -/
def toolSchemas : List ToolSchema :=
  [{ name := "list_files", properties := [("path", .string true), ("max_entries", .integer true 1 2000)] },
   { name := "read_file", properties := [("path", .string false)] },
   { name := "apply_patch", properties := [("patch", .string false)] },
   { name := "run_command", properties := [("command", .strings 1 128), ("timeout", .integer true 1 1200)] }]

/-- A text. -/
def asText : PyJson → Option PyStr
  | .str s => some s
  | _ => none

section
variable (B : Builtins)

/-- A value conforms to a schema. `5.0` is an integer to JSON Schema. -/
def Schema.accepts : Schema → PyJson → Bool
  | .string _, .str _ => true
  | .string nullable, .null => nullable
  | .integer _ minimum maximum, .int i => minimum ≤ i && i ≤ maximum
  | .integer _ minimum maximum, .float literal => (B.whole literal).any fun i => minimum ≤ i && i ≤ maximum
  | .integer nullable _ _, .null => nullable
  | .strings minItems maxItems, .arr items =>
    minItems ≤ items.length && items.length ≤ maxItems && items.all fun item => (asText item).isSome
  | _, _ => false

/-- An object conforms to the schema of a tool. -/
def ToolSchema.accepts (t : ToolSchema) (arguments : ToolArguments) : Bool :=
  (t.properties.all fun p => (argument arguments p.1).any (p.2.accepts B)) &&
  arguments.all fun a => (t.properties.map fun p => PyStr.ofText p.1).contains a.1

/-- No text among the values is empty. -/
def filled : PyJson → Bool
  | .str s => s ≠ []
  | .arr items => items.all fun item => !(item matches .str [])
  | _ => true

/-- The arguments conform to the entry of the tool, and their strings are not empty. -/
def Conforms (name : String) (arguments : ToolArguments) : Prop :=
  (∃ t ∈ toolSchemas, t.name = name ∧ t.accepts B arguments = true) ∧ ∀ a ∈ arguments, filled a.2 = true

/-! ## The validator -/

/-- The names `_validate_tool_arguments` allows. -/
def allowed : String → Option (List String)
  | "list_files" => some ["path", "max_entries"]
  | "read_file" => some ["path"]
  | "apply_patch" => some ["patch"]
  | "run_command" => some ["command", "timeout"]
  | _ => none

/-- `isinstance(value, int)`: a truth value is an integer to Python. -/
def isInstanceInt : PyJson → Option Int
  | .int i => some i
  | .bool true => some 1
  | .bool false => some 0
  | _ => none

/-- An optional argument is there, not null, and no integer within the bounds. -/
def badInteger (maximum : Int) : Option PyJson → Bool
  | none => false
  | some .null => false
  | some value => !(isInstanceInt value).any fun i => 1 ≤ i && i ≤ maximum

/-- A text with something in it. -/
def goodText (value : Option PyJson) : Bool := (value.bind asText).any fun s => s ≠ []

/-- The command is a list of one to 128 texts. -/
def goodCommand : Option PyJson → Bool
  | some (.arr items) => 1 ≤ items.length && items.length ≤ 128 && items.all fun item => goodText (some item)
  | _ => false

/-- The checks of the fields of each tool. -/
def validateFields (name : String) (arguments : ToolArguments) : Except String ToolArguments :=
  if (name = "read_file" ∨ name = "apply_patch") ∧
      goodText (argument arguments (if name = "read_file" then "path" else "patch")) = false then
    .error "missing string field"
  else if name = "list_files" ∧ (argument arguments "path").all (fun v => v matches .null | .str _) = false then
    .error "invalid path"
  else if name = "list_files" ∧ badInteger 2000 (argument arguments "max_entries") = true then .error "invalid max_entries"
  else if name = "run_command" ∧ goodCommand (argument arguments "command") = false then .error "command must be argv"
  else if name = "run_command" ∧ badInteger 1200 (argument arguments "timeout") = true then .error "invalid timeout"
  else .ok arguments

/-- `_validate_tool_arguments`. -/
def validateToolArguments (name : String) (value : PyJson) : Except String ToolArguments :=
  match value with
  | .obj arguments =>
    match allowed name with
    | none => .error "unknown tool or field"
    | some names =>
      if arguments.all (fun a => (names.map PyStr.ofText).contains a.1) = false then .error "unknown tool or field"
      else validateFields name arguments
  | _ => .error "arguments must be an object"

/-! ## The executor -/

/-- Why a tool fails: of the arguments themselves, or of the paths, the files or the sandbox. -/
inductive ToolFault
  | shape (raised : String)
  | host

/-- The workspace and its sandbox, with the results of the tools. -/
structure Host (A : Type) where
  /-- `_path` lets the path through. -/
  path : PyStr → Bool
  listFiles : PyStr → Int → Except Unit A
  readFile : PyStr → Except Unit A
  applyPatch : String → Except Unit A
  hasSandbox : Bool
  /-- `_admit_observation`. -/
  admitted : Bool
  capacity : List PyJson → A
  runEphemeral : List PyStr → Option Int → Except Unit A

/-- What the host answers. -/
def answered {A : Type} : Except Unit A → Except ToolFault A
  | .ok a => .ok a
  | .error _ => .error .host

/-- `str`. -/
def strOf : PyJson → PyStr
  | .str s => s
  | value => B.repr value

/-- `not value`. -/
def falsy : PyJson → Bool
  | .null | .bool false | .int 0 | .str [] | .arr [] | .obj [] => true
  | .float literal => B.whole literal == some 0
  | _ => false

/-- `str(arguments.get("path") or ".")`. -/
def basePath (value : Option PyJson) : PyStr :=
  match value with
  | none => PyStr.ofText "."
  | some value => if falsy B value then PyStr.ofText "." else strOf B value

/-- `int`. -/
def intOf : PyJson → Except ToolFault Int
  | .int i => .ok i
  | .bool b => .ok (if b then 1 else 0)
  | .float literal => ((B.intOfFloat literal).map .ok).getD (.error (.shape "ValueError"))
  | .str s => ((B.intOfText s).map .ok).getD (.error (.shape "ValueError"))
  | _ => .error (.shape "TypeError")

/-- `list`. -/
def listOf : PyJson → Except ToolFault (List PyJson)
  | .arr items => .ok items
  | .str s => .ok (s.map fun c => .str [c])
  | .obj fields => .ok (fields.map fun f => .str f.1)
  | _ => .error (.shape "TypeError")

/-- `arguments[name]`. -/
def item (arguments : ToolArguments) (name : String) : Except ToolFault PyJson :=
  ((argument arguments name).map .ok).getD (.error (.shape "KeyError"))

/-- The parts of a command, which the sandbox only takes as texts. -/
def argvOf (value : PyJson) : Except ToolFault (List PyStr) :=
  match value with
  | .arr items => ((items.mapM asText).map .ok).getD (.error .host)
  | _ => .error .host

/-- The time limit, which the sandbox compares with a number. -/
def secondsOf : Option PyJson → Except ToolFault (Option Int)
  | none | some .null => .ok none
  | some value => ((isInstanceInt value).map fun i => .ok (some i)).getD (.error (.shape "TypeError"))

/-- `WorkspaceTools.execute`. -/
def executeTool {A : Type} (host : Host A) (name : String) (arguments : ToolArguments) : Except ToolFault A :=
  if name = "list_files" then
    let rawBase := basePath B (argument arguments "path")
    if rawBase ≠ PyStr.ofText "." ∧ host.path rawBase = false then .error .host
    else do
      let limit ← intOf B ((argument arguments "max_entries").getD (.int 1000))
      answered (host.listFiles rawBase limit)
  else if name = "read_file" then do
    let path ← item arguments "path"
    if host.path (strOf B path) = false then .error .host
    else answered (host.readFile (strOf B path))
  else if name = "run_command" then
    if host.hasSandbox = false then .error .host
    else do
      let command ← item arguments "command"
      if host.admitted = false then do
        let parts ← listOf command
        .ok (host.capacity parts)
      else do
        let argv ← argvOf command
        let seconds ← secondsOf (argument arguments "timeout")
        answered (host.runEphemeral argv seconds)
  else if name = "apply_patch" then do
    let patch ← item arguments "patch"
    match PyStr.text? (strOf B patch) with
    | none => .error (.shape "UnicodeEncodeError")
    | some text => answered (host.applyPatch text)
  else .error (.shape "ValueError")

/-! ## Agreement -/

/-- The validator accepts the arguments, and no host makes the executor fail on their shape. -/
def Agrees (name : String) (arguments : ToolArguments) : Prop :=
  validateToolArguments name (.obj arguments) = .ok arguments ∧
  ∀ (A : Type) (host : Host A) (raised : String), executeTool B host name arguments ≠ .error (.shape raised)

/-- The limit of a listing is written out, no integer is written as a float, and a patch has an encoding. -/
structure PlainArguments (name : String) (arguments : ToolArguments) : Prop where
  limited : name = "list_files" → argument arguments "max_entries" ≠ some .null
  counted : name = "list_files" → ∀ literal, argument arguments "max_entries" ≠ some (.float literal)
  timed : name = "run_command" → ∀ literal, argument arguments "timeout" ≠ some (.float literal)
  encodable : name = "apply_patch" → ∀ s, argument arguments "patch" = some (.str s) → (PyStr.text? s).isSome = true

theorem mem_of_argument {arguments : ToolArguments} {name : String} {v : PyJson}
    (h : argument arguments name = some v) : ∃ a ∈ arguments, a.2 = v := by
  obtain ⟨l, r, hsplit, _⟩ := List.lookup_eq_some_iff.mp h
  exact ⟨(PyStr.ofText name, v), by rw [hsplit]; exact List.mem_append_right l List.mem_cons_self, rfl⟩

theorem accepts_integer {maximum : Int} {v : PyJson} (h : (Schema.integer true 1 maximum).accepts B v = true) :
    v = .null ∨ (∃ i, v = .int i ∧ 1 ≤ i ∧ i ≤ maximum) ∨ ∃ literal, v = .float literal := by
  cases v with
  | null => exact .inl rfl
  | int i =>
    simp only [Schema.accepts, Bool.and_eq_true, decide_eq_true_eq] at h
    exact .inr (.inl ⟨i, rfl, h⟩)
  | float literal => exact .inr (.inr ⟨literal, rfl⟩)
  | _ => simp [Schema.accepts] at h

theorem accepts_string {nullable : Bool} {v : PyJson} (h : (Schema.string nullable).accepts B v = true)
    (hfilled : filled v = true) : (v = .null ∧ nullable = true) ∨ ∃ s, v = .str s ∧ s ≠ [] := by
  cases v with
  | null => exact .inl ⟨rfl, by simpa [Schema.accepts] using h⟩
  | str s => exact .inr ⟨s, rfl, by simpa [filled] using hfilled⟩
  | _ => simp [Schema.accepts] at h

theorem accepts_strings {minItems maxItems : Nat} {v : PyJson} (h : (Schema.strings minItems maxItems).accepts B v = true)
    (hfilled : filled v = true) : ∃ parts : List PyStr, v = .arr (parts.map .str) ∧
      minItems ≤ parts.length ∧ parts.length ≤ maxItems ∧ ∀ part ∈ parts, part ≠ [] := by
  cases v with
  | arr items =>
    simp only [Schema.accepts, Bool.and_eq_true, decide_eq_true_eq, List.all_eq_true] at h
    obtain ⟨⟨hmin, hmax⟩, htexts⟩ := h
    obtain ⟨parts, rfl⟩ : ∃ parts : List PyStr, items = parts.map .str := by
      clear hmin hmax hfilled
      induction items with
      | nil => exact ⟨[], rfl⟩
      | cons item items ih =>
        obtain ⟨parts, hparts⟩ := ih fun i hi => htexts i (List.mem_cons_of_mem item hi)
        have hitem := htexts item List.mem_cons_self
        cases item with
        | str s => exact ⟨s :: parts, by rw [hparts, List.map_cons]⟩
        | _ => simp [asText] at hitem
    rw [List.length_map] at hmin hmax
    refine ⟨parts, rfl, hmin, hmax, fun part hpart hempty => ?_⟩
    simp only [filled, List.all_eq_true, List.mem_map, forall_exists_index, and_imp, forall_apply_eq_imp_iff₂] at hfilled
    have := hfilled part hpart
    simp [hempty] at this
  | _ => simp [Schema.accepts] at h

/-- The properties of an object that conforms, and its keys. -/
theorem ToolSchema.of_accepts {t : ToolSchema} {arguments : ToolArguments} (h : t.accepts B arguments = true) :
    (∀ p ∈ t.properties, ∃ v, argument arguments p.1 = some v ∧ p.2.accepts B v = true) ∧
    (arguments.all fun a => (t.properties.map fun p => PyStr.ofText p.1).contains a.1) = true := by
  rw [ToolSchema.accepts, Bool.and_eq_true, List.all_eq_true] at h
  exact ⟨fun p hp => (Option.any_eq_true _ _).mp (h.1 p hp), h.2⟩

theorem validate_of_keys {name : String} {names : List String} {arguments : ToolArguments} (hname : allowed name = some names)
    (hkeys : arguments.all (fun a => (names.map PyStr.ofText).contains a.1) = true) :
    validateToolArguments name (.obj arguments) = validateFields name arguments := by
  rw [validateToolArguments, hname]
  dsimp only
  rw [hkeys, if_neg (by decide)]

theorem mapM_asText (parts : List PyStr) : (parts.map PyJson.str).mapM asText = some parts := by
  induction parts with
  | nil => rfl
  | cons part parts ih => simp [List.mapM_cons, asText, ih]

theorem answered_ne_shape {A : Type} (answer : Except Unit A) (raised : String) :
    answered answer ≠ .error (.shape raised) := by
  cases answer with
  | ok a => exact fun h => by cases h
  | error u => exact fun h => by cases h

/-- An integer within the bounds passes the validator, and is the integer the executor reads. -/
theorem badInteger_int {maximum i : Int} (hmin : 1 ≤ i) (hmax : i ≤ maximum) :
    badInteger maximum (some (.int i)) = false := by
  simp [badInteger, isInstanceInt, hmin, hmax]

theorem badInteger_float (maximum : Int) (literal : List Char) : badInteger maximum (some (.float literal)) = true := rfl

/-- A host that lets every path through and answers everything. -/
def openHost : Host Unit :=
  { path := fun _ => true
    listFiles := fun _ _ => .ok (), readFile := fun _ => .ok (), applyPatch := fun _ => .ok ()
    hasSandbox := true, admitted := true, capacity := fun _ => (), runEphemeral := fun _ _ => .ok () }

variable {arguments : ToolArguments}

theorem listFiles_agrees_iff (hfilled : ∀ a ∈ arguments, filled a.2 = true) (h : ToolSchema.accepts B
    { name := "list_files", properties := [("path", .string true), ("max_entries", .integer true 1 2000)] } arguments = true) :
    Agrees B "list_files" arguments ↔ PlainArguments "list_files" arguments := by
  obtain ⟨hproperties, hkeys⟩ := ToolSchema.of_accepts B h
  obtain ⟨path, hpath, hpathOk⟩ := hproperties _ List.mem_cons_self
  obtain ⟨limit, hlimit, hlimitOk⟩ := hproperties _ (List.mem_cons_of_mem _ List.mem_cons_self)
  dsimp only at hpath hpathOk hlimit hlimitOk
  obtain ⟨a, ha, rfl⟩ := mem_of_argument hpath
  have hvalidate : validateToolArguments "list_files" (.obj arguments) =
      if badInteger 2000 (some limit) = true then .error "invalid max_entries" else .ok arguments := by
    rw [validate_of_keys rfl hkeys]
    obtain ⟨hnull, _⟩ | ⟨s, hs, _⟩ := accepts_string B hpathOk (hfilled a ha)
    · simp [validateFields, hpath, hlimit, hnull]
    · simp [validateFields, hpath, hlimit, hs]
  have hexecute : ∀ (A : Type) (host : Host A) (raised : String) (i : Int), intOf B limit = .ok i →
      executeTool B host "list_files" arguments ≠ .error (.shape raised) := by
    intro A host raised i hi
    rw [executeTool, if_pos rfl]
    dsimp only
    split
    · exact fun h => by cases h
    · rw [hlimit, Option.getD_some, hi]
      exact answered_ne_shape _ _
  obtain rfl | ⟨i, rfl, hmin, hmax⟩ | ⟨literal, rfl⟩ := accepts_integer B hlimitOk
  · refine iff_of_false (fun hagrees => hagrees.2 Unit openHost "TypeError" ?_) fun hplain => hplain.limited rfl hlimit
    rw [executeTool, if_pos rfl]
    dsimp only
    rw [if_neg (by simp [openHost]), hlimit]
    rfl
  · refine iff_of_true ⟨?_, fun A host raised => hexecute A host raised i rfl⟩ ⟨?_, ?_, ?_, ?_⟩
    · rw [hvalidate, badInteger_int hmin hmax]; rfl
    · exact fun _ hnull => by rw [hlimit] at hnull; cases hnull
    · exact fun _ literal hliteral => by rw [hlimit] at hliteral; cases hliteral
    · exact fun hname => absurd hname (by decide)
    · exact fun hname => absurd hname (by decide)
  · refine iff_of_false (fun hagrees => ?_) fun hplain => hplain.counted rfl literal hlimit
    have hvalid := hagrees.1
    rw [hvalidate, badInteger_float] at hvalid
    cases hvalid

theorem readFile_agrees_iff (hfilled : ∀ a ∈ arguments, filled a.2 = true) (h : ToolSchema.accepts B
    { name := "read_file", properties := [("path", .string false)] } arguments = true) :
    Agrees B "read_file" arguments ↔ PlainArguments "read_file" arguments := by
  obtain ⟨hproperties, hkeys⟩ := ToolSchema.of_accepts B h
  obtain ⟨path, hpath, hpathOk⟩ := hproperties _ List.mem_cons_self
  dsimp only at hpath hpathOk
  obtain ⟨a, ha, rfl⟩ := mem_of_argument hpath
  obtain ⟨_, hfalse⟩ | ⟨s, hs, hne⟩ := accepts_string B hpathOk (hfilled a ha)
  · cases hfalse
  rw [hs] at hpath
  refine iff_of_true ⟨?_, fun A host raised => ?_⟩ ⟨?_, ?_, ?_, ?_⟩
  · rw [validate_of_keys rfl hkeys]
    simp [validateFields, hpath, goodText, asText, hne]
  · rw [executeTool, if_neg (by decide), if_pos rfl, item, hpath]
    change (if host.path s = false then _ else _) ≠ _
    split
    · exact fun h => by cases h
    · exact answered_ne_shape _ _
  · exact fun hname => absurd hname (by decide)
  · exact fun hname => absurd hname (by decide)
  · exact fun hname => absurd hname (by decide)
  · exact fun hname => absurd hname (by decide)

theorem applyPatch_agrees_iff (hfilled : ∀ a ∈ arguments, filled a.2 = true) (h : ToolSchema.accepts B
    { name := "apply_patch", properties := [("patch", .string false)] } arguments = true) :
    Agrees B "apply_patch" arguments ↔ PlainArguments "apply_patch" arguments := by
  obtain ⟨hproperties, hkeys⟩ := ToolSchema.of_accepts B h
  obtain ⟨patch, hpatch, hpatchOk⟩ := hproperties _ List.mem_cons_self
  dsimp only at hpatch hpatchOk
  obtain ⟨a, ha, rfl⟩ := mem_of_argument hpatch
  obtain ⟨_, hfalse⟩ | ⟨s, hs, hne⟩ := accepts_string B hpatchOk (hfilled a ha)
  · cases hfalse
  rw [hs] at hpatch
  have hvalidate : validateToolArguments "apply_patch" (.obj arguments) = .ok arguments := by
    rw [validate_of_keys rfl hkeys]
    simp [validateFields, hpatch, goodText, asText, hne]
  have hexecute : ∀ (A : Type) (host : Host A), executeTool B host "apply_patch" arguments =
      match PyStr.text? s with
      | none => .error (.shape "UnicodeEncodeError")
      | some text => answered (host.applyPatch text) := by
    intro A host
    rw [executeTool, if_neg (by decide), if_neg (by decide), if_neg (by decide), if_pos rfl, item, hpatch]
    rfl
  cases htext : PyStr.text? s with
  | none =>
    refine iff_of_false (fun hagrees => hagrees.2 Unit openHost "UnicodeEncodeError" ?_) fun hplain => ?_
    · rw [hexecute, htext]
    · have := hplain.encodable rfl s hpatch
      rw [htext] at this
      cases this
  | some text =>
    refine iff_of_true ⟨hvalidate, fun A host raised => ?_⟩ ⟨?_, ?_, ?_, ?_⟩
    · rw [hexecute, htext]
      exact answered_ne_shape _ _
    · exact fun hname => absurd hname (by decide)
    · exact fun hname => absurd hname (by decide)
    · exact fun hname => absurd hname (by decide)
    · intro _ s' hs'
      rw [hpatch] at hs'
      cases hs'
      rw [htext]; rfl

theorem runCommand_agrees_iff (hfilled : ∀ a ∈ arguments, filled a.2 = true) (h : ToolSchema.accepts B
    { name := "run_command", properties := [("command", .strings 1 128), ("timeout", .integer true 1 1200)] }
    arguments = true) : Agrees B "run_command" arguments ↔ PlainArguments "run_command" arguments := by
  obtain ⟨hproperties, hkeys⟩ := ToolSchema.of_accepts B h
  obtain ⟨command, hcommand, hcommandOk⟩ := hproperties _ List.mem_cons_self
  obtain ⟨timeout, htimeout, htimeoutOk⟩ := hproperties _ (List.mem_cons_of_mem _ List.mem_cons_self)
  dsimp only at hcommand hcommandOk htimeout htimeoutOk
  obtain ⟨a, ha, rfl⟩ := mem_of_argument hcommand
  obtain ⟨parts, hparts, hmin, hmax, hne⟩ := accepts_strings B hcommandOk (hfilled a ha)
  rw [hparts] at hcommand
  have hgood : goodCommand (some (.arr (parts.map .str))) = true := by
    simp only [goodCommand, List.length_map, List.all_map, Bool.and_eq_true, decide_eq_true_eq, List.all_eq_true]
    exact ⟨⟨hmin, hmax⟩, fun part hpart => by simp [goodText, asText, hne part hpart]⟩
  have hvalidate : validateToolArguments "run_command" (.obj arguments) =
      if badInteger 1200 (some timeout) = true then .error "invalid timeout" else .ok arguments := by
    rw [validate_of_keys rfl hkeys]
    simp [validateFields, hcommand, htimeout, hgood]
  have hexecute : ∀ (A : Type) (host : Host A) (raised : String) (seconds : Option Int),
      secondsOf (some timeout) = .ok seconds → executeTool B host "run_command" arguments ≠ .error (.shape raised) := by
    intro A host raised seconds hseconds
    rw [executeTool, if_neg (by decide), if_neg (by decide), if_pos rfl]
    split
    · exact fun h => by cases h
    rw [item, hcommand, htimeout, hseconds]
    change (if host.admitted = false then _ else _) ≠ _
    split
    · exact fun h => by cases h
    · rw [argvOf, mapM_asText]
      exact answered_ne_shape _ _
  obtain rfl | ⟨i, rfl, hlow, hhigh⟩ | ⟨literal, rfl⟩ := accepts_integer B htimeoutOk
  · refine iff_of_true ⟨by rw [hvalidate]; rfl, fun A host raised => hexecute A host raised none rfl⟩ ⟨?_, ?_, ?_, ?_⟩
    · exact fun hname => absurd hname (by decide)
    · exact fun hname => absurd hname (by decide)
    · exact fun _ literal hliteral => by rw [htimeout] at hliteral; cases hliteral
    · exact fun hname => absurd hname (by decide)
  · refine iff_of_true ⟨?_, fun A host raised => hexecute A host raised (some i) rfl⟩ ⟨?_, ?_, ?_, ?_⟩
    · rw [hvalidate, badInteger_int hlow hhigh]; rfl
    · exact fun hname => absurd hname (by decide)
    · exact fun hname => absurd hname (by decide)
    · exact fun _ literal hliteral => by rw [htimeout] at hliteral; cases hliteral
    · exact fun hname => absurd hname (by decide)
  · refine iff_of_false (fun hagrees => ?_) fun hplain => hplain.timed rfl literal htimeout
    have hvalid := hagrees.1
    rw [hvalidate, badInteger_float] at hvalid
    cases hvalid

end

/-- The built-ins, for arguments they are not asked about. -/
def bareBuiltins : Builtins :=
  { whole := fun _ => none, intOfFloat := fun _ => none, intOfText := fun _ => none, repr := fun _ => [] }

/-- A listing of `src` with a limit. -/
def srcListing : ToolArguments := [(PyStr.ofText "path", .str (PyStr.ofText "src")), (PyStr.ofText "max_entries", .int 20)]

theorem srcListing_conforms : Conforms bareBuiltins "list_files" srcListing :=
  ⟨⟨_, List.mem_cons_self, rfl, by decide +kernel⟩, by decide +kernel⟩

/-- The listing of the root with no limit, as the model has to ask for it. -/
def rootListing : ToolArguments := [(PyStr.ofText "path", .null), (PyStr.ofText "max_entries", .null)]

end LilTweak.Agent
