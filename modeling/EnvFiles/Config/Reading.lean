import EnvFiles.Config.Basic
import EnvFiles.Definition
import EnvFiles.Failure

/-!
# Settings and definitions from data

A reader turns data into a value and a list of issues; with an issue the value is a default and
not used. Fields are looked up under two spellings, words joined by capitals or by underscores;
when both are given only the first counts. An issue is placed under the spelling that the data
uses, a missing field under the first one. Unknown fields are passed over.
-/

namespace EnvFiles

/-- A value and what was wrong with the data it was read from. -/
abbrev Checked (α : Type) := α × List Issue

/-- A value in which nothing was wrong. -/
def Checked.fine {α : Type} (value : α) : Checked α := (value, [])

/-- A default in place of data that has a problem. -/
def Checked.faulty {α : Type} (fallback : α) (problem : Problem) : Checked α :=
  (fallback, [⟨[], problem⟩])

/-- The value, when nothing was wrong. -/
def Checked.result {α : Type} (checked : Checked α) : Except (List Issue) α :=
  if checked.2.isEmpty then .ok checked.1 else .error checked.2

/-- The two spellings of a field. -/
structure FieldName where
  joined : Text
  underscored : Text

/-- The small-letter spelling of one that joins words by capitals. -/
def FieldName.underscore : Text → Text
  | [] => []
  | c :: rest =>
    if c.isUpper then '_' :: c.toLower :: underscore rest else c :: underscore rest

/-- The field with the given spelling and its underscored variant. -/
def FieldName.of (joined : Text) : FieldName := ⟨joined, underscore joined⟩

/-- The spelling under which a section gives a field, and the value. -/
def field? (name : FieldName) (entries : List (Data × Data)) : Option (Text × Data) :=
  match Data.lookup? name.joined entries with
  | some value => some (name.joined, value)
  | none => (Data.lookup? name.underscored entries).map fun value => (name.underscored, value)

/-- Read a field that may be left out. -/
def readField {α : Type} (joined : Text) (fallback : α) (read : Data → Checked α)
    (entries : List (Data × Data)) : Checked α :=
  match field? (.of joined) entries with
  | none => .fine fallback
  | some (spelling, value) =>
    let (result, issues) := read value
    (result, issues.map (Issue.under spelling))

/-- Read a field that must be given. -/
def readRequired {α : Type} (joined : Text) (fallback : α) (read : Data → Checked α)
    (entries : List (Data × Data)) : Checked α :=
  match field? (.of joined) entries with
  | none => (fallback, [⟨[joined], .missing⟩])
  | some _ => readField joined fallback read entries

/-- Read a section by its entries. -/
def readSection {α : Type} (fallback : α) (read : List (Data × Data) → Checked α)
    (data : Data) : Checked α :=
  match data.opened with
  | .mapping entries => read entries
  | _ => .faulty fallback .sectionExpected

/-- Read a text. -/
def readText : Data → Checked Text
  | .text t => .fine t
  | .halvedText codes => .fine codes.mended
  | _ => .faulty [] .textExpected

/-- Read the members of a list from the given index on. -/
def readItems {α : Type} (read : Data → Checked α) : Nat → List Data → Checked (List α)
  | _, [] => .fine []
  | index, item :: rest =>
    let (first, issues) := read item
    let (others, more) := readItems read (index + 1) rest
    (first :: others, issues.map (Issue.under (Text.ofNat index)) ++ more)

/-- Read a list. -/
def readList {α : Type} (read : Data → Checked α) (data : Data) : Checked (List α) :=
  match data.opened with
  | .list items => readItems read 0 items
  | _ => .faulty [] .listExpected

/-- How a mapping's key appears in the place of an issue. -/
def keyPlace : Data → Text
  | .text t => t
  | .halvedText codes => codes.mended
  | .bool true => "1"
  | .bool false => "0"
  | key => Data.written key

/-- Read the entries of a mapping whose keys are texts. -/
def readEntries {α : Type} (read : Data → Checked α) :
    List (Data × Data) → Checked (Table Text α)
  | [] => .fine []
  | (key, value) :: rest =>
    let (first, issues) := read value
    let (others, more) := readEntries read rest
    let issues := issues.map (Issue.under (keyPlace key))
    match key with
    | .text t => ((t, first) :: others, issues ++ more)
    | .halvedText codes => ((codes.mended, first) :: others, issues ++ more)
    | _ => (others, ⟨[keyPlace key, "[key]"], .textExpected⟩ :: issues ++ more)

/-- Read a mapping whose keys are texts. -/
def readTable {α : Type} (read : Data → Checked α) (data : Data) : Checked (Table Text α) :=
  match data.opened with
  | .mapping entries => readEntries read entries
  | _ => .faulty [] .mappingExpected

/-- Read one word of a fixed set. -/
def readChoice {α : Type} (fallback : α) (problem : Problem) (ofWord? : Text → Option α) :
    Data → Checked α
  | .text word => match ofWord? word with
    | some value => .fine value
    | none => .faulty fallback problem
  | .halvedText _ => .faulty fallback .halvedText
  | _ => .faulty fallback problem

/-- Read the settings of workspaces. -/
def WorkspaceSettings.read : Data → Checked WorkspaceSettings :=
  readSection {} fun entries =>
    let defaults : WorkspaceSettings := {}
    let (detection, i) := readField "detection" .auto
      (readChoice .auto .fixedChoice Detection.ofWord?) entries
    let (patterns, j) := readField "patterns" [] (readList readText) entries
    let (sourceDir, k) := readField "sourceDir" defaults.sourceDir readText entries
    ({ detection, patterns, sourceDir }, i ++ j ++ k)

/-- Read the settings of a project. -/
def ProjectSettings.read : Data → Checked ProjectSettings :=
  readSection {} fun entries =>
    let defaults : ProjectSettings := {}
    let (exampleName, i) := readField "rootEnvExample" defaults.exampleName readText entries
    let (valuesName, j) := readField "rootEnvLocal" defaults.valuesName readText entries
    let (workspaces, k) := readField "workspaces" {} WorkspaceSettings.read entries
    ({ exampleName, valuesName, workspaces }, i ++ j ++ k)

/-- Read the settings of scanning. -/
def ScanSettings.read : Data → Checked ScanSettings :=
  readSection {} fun entries =>
    let defaults : ScanSettings := {}
    let texts := readList readText
    let (extensions, i) := readField "extensions" defaults.extensions texts entries
    let (skipDirs, j) := readField "skipDirs" defaults.skipDirs texts entries
    let (ignoreMissing, k) := readField "ignoreMissing" [] texts entries
    let (ignoreUnused, l) := readField "ignoreUnused" [] texts entries
    ({ extensions, skipDirs, ignoreMissing, ignoreUnused }, i ++ j ++ k ++ l)

/-- Read the settings of continuous integration. -/
def CiSettings.read : Data → Checked CiSettings :=
  readSection {} fun entries =>
    let defaults : CiSettings := {}
    let (skipVariable, i) := readField "skipEnvVar" defaults.skipVariable readText entries
    let (skipDirectives, j) := readField "skipDirectives" defaults.skipDirectives
      (readList readText) entries
    let (detection, k) := readField "detection" defaults.detection
      (readTable (readList readText)) entries
    ({ skipVariable, skipDirectives, detection }, i ++ j ++ k)

/-- Read a reference to a plugin. -/
def PluginReference.read : Data → Checked PluginReference :=
  readSection ⟨[], []⟩ fun entries =>
    let (name, i) := readRequired "name" [] readText entries
    let (options, j) := readField "options" [] (readTable Checked.fine) entries
    ({ name, options }, i ++ j)

/-- Read the section that names plugins. -/
def readPlugins : Data → Checked (List PluginReference) :=
  readSection [] fun entries => readField "external" [] (readList PluginReference.read) entries

/-- Read the version, of which there is one. -/
def readVersion : Data → Checked Unit :=
  readChoice () .fixedChoice fun word => if word = configVersion then some () else none

/-- Read settings and collect what is wrong with them. -/
def Config.check : Data → Checked Config :=
  readSection {} fun entries =>
    let (_, i) := readField "version" () readVersion entries
    let (project, j) := readField "project" {} ProjectSettings.read entries
    let (scanning, k) := readField "scanning" {} ScanSettings.read entries
    let (ci, l) := readField "ci" {} CiSettings.read entries
    let (plugins, m) := readField "plugins" [] readPlugins entries
    ({ project, scanning, ci, plugins }, i ++ j ++ k ++ l ++ m)

/-- The settings that data give, or everything that is wrong with the data. -/
def Config.ofData (data : Data) : Except (List Issue) Config := (Config.check data).result

/-- A directive of one kind read from entries: each kind has its own fields, and the fields that
are given decide between kinds. The number counts them. -/
structure DirectiveReading where
  directive : Directive
  given : Nat

/-- Whether entries name the kind, or name none; the number counts the kind's field. -/
def namesKind (kind : Text) (entries : List (Data × Data)) : Option Nat :=
  match Data.lookup? "kind" entries with
  | none => some 0
  | some (.text k) => if k = kind then some 1 else none
  | some _ => none

/-- A text field that may be left out: its value and the number of fields given. -/
def textOr (fallback key : Text) (entries : List (Data × Data)) : Option (Text × Nat) :=
  match Data.lookup? key entries with
  | none => some (fallback, 0)
  | some (.text t) => some (t, 1)
  | some _ => none

/-- A text field that must be given. -/
def textAt (key : Text) (entries : List (Data × Data)) : Option Text :=
  match Data.lookup? key entries with
  | some (.text t) => some t
  | _ => none

/-- A literal default: a text, nothing, or left out. -/
def literalAt (entries : List (Data × Data)) : Option (Option Text × Nat) :=
  match Data.lookup? "value" entries with
  | none => some (none, 0)
  | some .null => some (none, 1)
  | some (.text t) => some (some t, 1)
  | some _ => none

/-- All directives that entries can stand for. -/
def directiveReadings (entries : List (Data × Data)) : List DirectiveReading :=
  let plain (directive : Directive) : Option DirectiveReading :=
    (namesKind directive.kind entries).map fun given => ⟨directive, given⟩
  [ plain .prompt,
    plain .placeholder,
    do
      let given ← namesKind "computed" entries
      return ⟨.computed (← textAt "compute_type" entries), given + 1⟩,
    do
      let given ← namesKind "copy" entries
      return ⟨.copy (← textAt "source" entries), given + 1⟩,
    do
      let given ← namesKind "default" entries
      let (value, more) ← literalAt entries
      return ⟨.fixed value, given + more⟩,
    do
      let given ← namesKind "boolean" entries
      let (yes, more) ← textOr "true" "yes" entries
      let (no, others) ← textOr "false" "no" entries
      return ⟨.boolean yes no, given + more + others⟩,
    plain .localOnly,
    do return ⟨.plugin (← textAt "kind" entries) (← textAt "raw" entries), 2⟩ ].filterMap id

/-- The first reading that uses the most fields. -/
def bestReading (readings : List DirectiveReading) : Option Directive :=
  (readings.foldl (fun best reading =>
    match best with
    | some (chosen : DirectiveReading) =>
      if chosen.given < reading.given then some reading else best
    | none => some reading) none).map DirectiveReading.directive

/-- Read a directive. -/
def Directive.read : Data → Checked Directive
  | .mapping entries => match bestReading (directiveReadings entries) with
    | some directive => .fine directive
    | none => .faulty .placeholder .malformedDirective
  | _ => .faulty .placeholder .malformedDirective

/-- Read a field of one spelling that may be left out. -/
def readOwnField {α : Type} (key : Text) (fallback : α) (read : Data → Checked α)
    (entries : List (Data × Data)) : Checked α :=
  match Data.lookup? key entries with
  | none => .fine fallback
  | some value =>
    let (result, issues) := read value
    (result, issues.map (Issue.under key))

/-- Read the name of a definition, which must be given. -/
def readDefinitionName (entries : List (Data × Data)) : Checked Text :=
  match Data.lookup? "name" entries with
  | none => ([], [⟨["name"], .missing⟩])
  | some _ => readOwnField "name" [] readText entries

/-- Read a definition and collect what is wrong with it. Its fields have one spelling. -/
def Definition.check : Data → Checked Definition :=
  readSection { name := [] } fun entries =>
    let (name, i) := readDefinitionName entries
    let (exampleValue, j) := readOwnField "example_value" [] readText entries
    let (requirement, k) := readOwnField "requirement" Requirement.optional
      (readChoice .optional .levelExpected Requirement.ofWord?) entries
    let (directive, l) := readOwnField "directive" Directive.placeholder Directive.read entries
    let (description, m) := readOwnField "description" [] readText entries
    let (rawComment, n) := readOwnField "raw_comment" [] readText entries
    ({ name, exampleValue, requirement, directive, description, rawComment },
      i ++ j ++ k ++ l ++ m ++ n)

/-- The definition that data give, or everything that is wrong with the data. -/
def Definition.ofData (data : Data) : Except (List Issue) Definition :=
  (Definition.check data).result

end EnvFiles
